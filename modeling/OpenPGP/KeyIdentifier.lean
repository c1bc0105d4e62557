import OpenPGP.Octets
/-!
# Key identifiers and key flags

A key is named by its fingerprint (20 octets in version 4, 32 in version 6) or
by the eight-octet key ID cut from it: the last eight octets in version 4, the
first eight in version 6. Two names match when they can denote the same key.

Results:
* `KeyIdentifier.matches_self`, `KeyIdentifier.matches_comm`: matching is reflexive and symmetric.
-/
namespace OpenPGP

/-! ## Key IDs and fingerprints -/

/-- An eight-octet key ID. -/
abbrev KeyId := Octets.Sized 8

namespace KeyId

/-- The all-zero key ID, which an anonymous recipient carries. -/
def wildcard : KeyId := Octets.Sized.zero 8

def isWildcard (id : KeyId) : Bool := id = wildcard

def display (id : KeyId) : String := Octets.hexUpper id.val

end KeyId

/-- A key fingerprint, by key version. -/
inductive Fingerprint where
  | v4 (octets : Octets.Sized 20)
  | v6 (octets : Octets.Sized 32)
  deriving DecidableEq

namespace Fingerprint

def version : Fingerprint → UInt8
  | v4 _ => 4
  | v6 _ => 6

def octets : Fingerprint → Octets
  | v4 o => o.val
  | v6 o => o.val

/-- The fingerprint of a key of `version`, if the length is that version's. -/
def ofOctets? (version : UInt8) (octets : Octets) : Option Fingerprint :=
  match version with
  | 4 => (Octets.sized? 20 octets).map v4
  | 6 => (Octets.sized? 32 octets).map v6
  | _ => none

/-- The key ID cut from a fingerprint. -/
def keyId : Fingerprint → KeyId
  | v4 o => ⟨o.val.drop 12, by simp [o.property]⟩
  | v6 o => ⟨o.val.take 8, by simp [o.property]⟩

def display (f : Fingerprint) : String := Octets.hexUpper f.octets

/-- The form with the version in front. -/
def describe (f : Fingerprint) : String := s!"Fingerprint(v{f.version} {f.display})"

end Fingerprint

/-! ## Names of keys in packets -/

/-- Either name of a key. -/
inductive KeyIdentifier where
  | keyId (id : KeyId)
  | fingerprint (fingerprint : Fingerprint)
  deriving DecidableEq

namespace KeyIdentifier

/-- The key ID a name stands for. -/
def id : KeyIdentifier → KeyId
  | keyId id => id
  | fingerprint f => f.keyId

/-- Whether two names can denote one key: fingerprints must agree, otherwise the key IDs. -/
def «matches» : KeyIdentifier → KeyIdentifier → Bool
  | fingerprint a, fingerprint b => a = b
  | a, b => a.id = b.id

def matchesFingerprint (a : KeyIdentifier) (f : Fingerprint) : Bool := a.matches (fingerprint f)

def display : KeyIdentifier → String
  | keyId id => id.display
  | fingerprint f => f.display

def describe : KeyIdentifier → String
  | keyId id => s!"KeyId(KeyId({id.display}))"
  | fingerprint f => s!"Fingerprint({f.describe})"

theorem matches_self (a : KeyIdentifier) : a.matches a = true := by
  cases a <;> simp [«matches»]

theorem matches_comm (a b : KeyIdentifier) : a.matches b = b.matches a := by
  cases a <;> cases b <;> simp [«matches», eq_comm]

theorem matches_keyId_iff {a : KeyIdentifier} {i : KeyId} : a.matches (keyId i) = true ↔ a.id = i := by
  cases a <;> exact decide_eq_true_iff

end KeyIdentifier

/-! ## Key flags -/

/-- What a key may be used for, one bit per use. -/
structure KeyFlags where
  bits : UInt8
  deriving DecidableEq, Repr, Inhabited

namespace KeyFlags

def signData : KeyFlags := ⟨0x02⟩
/-- Either encryption use. -/
def encrypt : KeyFlags := ⟨0x0C⟩

def canEncrypt (f : KeyFlags) : Bool := f.bits &&& 0x0C ≠ 0
def canSign (f : KeyFlags) : Bool := f.bits &&& 0x02 ≠ 0

/-- The named uses, in the order of their bits. -/
def names : List (UInt8 × String) :=
  [(0x01, "CERTIFY"), (0x02, "SIGN_DATA"), (0x04, "ENCRYPT_COMMUNICATIONS"), (0x08, "ENCRYPT_STORAGE"),
   (0x10, "SPLIT"), (0x20, "AUTHENTICATE"), (0x80, "SHARED")]

/-- The names of the set bits joined by bars; the one unnamed bit comes last, in hexadecimal. -/
def display (f : KeyFlags) : String :=
  let named := (names.filter fun n => f.bits &&& n.1 ≠ 0).map (·.2)
  let unnamed := if f.bits &&& 0x40 ≠ 0 then ["0x40"] else []
  " | ".intercalate (named ++ unnamed)

def describe (f : KeyFlags) : String :=
  if f.bits = 0 then "KeyFlags(0x0)" else s!"KeyFlags({f.display})"

end KeyFlags

end OpenPGP
