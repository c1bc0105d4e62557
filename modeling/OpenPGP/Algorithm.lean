import OpenPGP.Octets
/-!
# Algorithm identifiers

Packets name algorithms and formats by one octet. A registry lists the octets
that have a meaning; every other octet still parses, and is refused only where
the algorithm is needed. An identifier is either a registered one or a bare
octet that nothing is known about. The second form is there for every octet,
also for a registered one: such an identifier is written like the registered
one and is another. What is parsed is always in canonical form, that is
registered where the registry has the octet.
-/
namespace OpenPGP

/-- The octets that have a meaning, and their names. -/
abbrev Registry := List (UInt8 × String)

/-- An identifier over a registry. -/
inductive Identifier (registry : Registry) where
  | registered (code : UInt8) (isSome_lookup : (registry.lookup code).isSome)
  /-- An octet of which nothing is known, whatever the registry says of it. -/
  | other (code : UInt8)
  deriving DecidableEq, Repr

namespace Identifier

variable {registry : Registry}

instance : Inhabited (Identifier registry) := ⟨.other 0⟩

/-- The octet an identifier is written as. -/
def code : Identifier registry → UInt8
  | registered code _ => code
  | other code => code

/-- The identifier an octet is read as. -/
def ofCode (code : UInt8) : Identifier registry :=
  if h : (registry.lookup code).isSome then .registered code h else .other code

/-- The octet of a registered identifier. -/
def registered? : Identifier registry → Option UInt8
  | registered code _ => some code
  | other _ => none

/-- An identifier that is read back as itself. -/
def IsCanonical (i : Identifier registry) : Prop := ofCode i.code = i

instance (i : Identifier registry) : Decidable i.IsCanonical := inferInstanceAs (Decidable (_ = _))

private def nameIn (i : Identifier registry) (unknown : UInt8 → String) : String :=
  match i.registered?.bind (List.lookup · registry) with
  | some name => name
  | none => unknown i.code

/-- The registered name, or a wording for an octet without one. -/
def name (i : Identifier registry) : String := i.nameIn fun code => s!"unknown({code})"

/-- The registered name, or the octet as one without a name. -/
def identifier (i : Identifier registry) : String := i.nameIn fun code => s!"Other({code})"

@[simp] theorem code_ofCode (code : UInt8) : (ofCode code : Identifier registry).code = code := by
  unfold ofCode
  split <;> rfl

@[simp] theorem isCanonical_ofCode (code : UInt8) : (ofCode code : Identifier registry).IsCanonical := by
  simp [IsCanonical]

@[simp] theorem isCanonical_registered (code : UInt8) (h : (registry.lookup code).isSome) :
    (registered code h).IsCanonical := by
  simp [IsCanonical, ofCode, Identifier.code, h]

theorem IsCanonical.ofCode_code {i : Identifier registry} (h : i.IsCanonical) : ofCode i.code = i := h

/-- In canonical form, identifiers are their octets. -/
theorem IsCanonical.eq {i j : Identifier registry} (hi : i.IsCanonical) (hj : j.IsCanonical)
    (h : i.code = j.code) : i = j := by
  rw [← hi.ofCode_code, ← hj.ofCode_code, h]

end Identifier

/-! ## Symmetric ciphers -/

def SymmetricAlgorithm.registry : Registry :=
  [(0, "Plaintext"), (1, "Idea"), (2, "TripleDes"), (3, "Cast5"), (4, "Blowfish"), (7, "Aes128"),
   (8, "Aes192"), (9, "Aes256"), (10, "Twofish"), (11, "Camellia128"), (12, "Camellia192"),
   (13, "Camellia256")]

/-- A symmetric cipher. -/
abbrev SymmetricAlgorithm := Identifier SymmetricAlgorithm.registry

namespace SymmetricAlgorithm

@[match_pattern] def aes128 : SymmetricAlgorithm := .registered 7 rfl
@[match_pattern] def aes192 : SymmetricAlgorithm := .registered 8 rfl
@[match_pattern] def aes256 : SymmetricAlgorithm := .registered 9 rfl

/-- Key size in octets. -/
def keySize (a : SymmetricAlgorithm) : Option Nat :=
  match a.registered? with
  | some 1 | some 3 | some 4 | some 7 | some 11 => some 16
  | some 2 | some 8 | some 12 => some 24
  | some 9 | some 10 | some 13 => some 32
  | _ => none

/-- Block size in octets. -/
def blockSize (a : SymmetricAlgorithm) : Option Nat :=
  match a.registered? with
  | some 1 | some 2 | some 3 | some 4 => some 8
  | some 7 | some 8 | some 9 | some 10 | some 11 | some 12 | some 13 => some 16
  | _ => none

end SymmetricAlgorithm

/-! ## AEAD modes -/

def AeadAlgorithm.registry : Registry := [(1, "Eax"), (2, "Ocb"), (3, "Gcm")]

/-- An AEAD mode. -/
abbrev AeadAlgorithm := Identifier AeadAlgorithm.registry

namespace AeadAlgorithm

@[match_pattern] def eax : AeadAlgorithm := .registered 1 rfl
@[match_pattern] def ocb : AeadAlgorithm := .registered 2 rfl
@[match_pattern] def gcm : AeadAlgorithm := .registered 3 rfl

/-- Nonce size in octets. -/
def nonceSize (a : AeadAlgorithm) : Option Nat :=
  match a.registered? with
  | some 1 => some 16
  | some 2 => some 15
  | some 3 => some 12
  | _ => none

/-- Tag size in octets, the same for every registered mode. -/
def tagSize (a : AeadAlgorithm) : Option Nat :=
  match a.registered? with
  | some 1 | some 2 | some 3 => some 16
  | _ => none

end AeadAlgorithm

/-! ## Hashes -/

def HashAlgorithm.registry : Registry :=
  [(1, "Md5"), (2, "Sha1"), (3, "Ripemd160"), (8, "Sha256"), (9, "Sha384"), (10, "Sha512"),
   (11, "Sha224"), (12, "Sha3_256"), (14, "Sha3_512")]

/-- A hash. -/
abbrev HashAlgorithm := Identifier HashAlgorithm.registry

namespace HashAlgorithm

@[match_pattern] def sha1 : HashAlgorithm := .registered 2 rfl
@[match_pattern] def sha256 : HashAlgorithm := .registered 8 rfl
@[match_pattern] def sha384 : HashAlgorithm := .registered 9 rfl
@[match_pattern] def sha512 : HashAlgorithm := .registered 10 rfl
@[match_pattern] def sha224 : HashAlgorithm := .registered 11 rfl

/-- Digest size in octets. -/
def digestSize (a : HashAlgorithm) : Option Nat :=
  match a.registered? with
  | some 1 => some 16
  | some 2 | some 3 => some 20
  | some 11 => some 28
  | some 8 | some 12 => some 32
  | some 9 => some 48
  | some 10 | some 14 => some 64
  | _ => none

end HashAlgorithm

/-! ## Public-key algorithms -/

def PublicKeyAlgorithm.registry : Registry :=
  [(1, "Rsa"), (2, "RsaEncryptOnly"), (3, "RsaSignOnly"), (16, "Elgamal"), (17, "Dsa"), (18, "Ecdh"),
   (19, "Ecdsa"), (22, "EdDsaLegacy"), (25, "X25519"), (26, "X448"), (27, "Ed25519"), (28, "Ed448")]

/-- A public-key algorithm. -/
abbrev PublicKeyAlgorithm := Identifier PublicKeyAlgorithm.registry

namespace PublicKeyAlgorithm

@[match_pattern] def x25519 : PublicKeyAlgorithm := .registered 25 rfl
@[match_pattern] def ed25519 : PublicKeyAlgorithm := .registered 27 rfl

end PublicKeyAlgorithm

/-! ## Compression -/

def CompressionAlgorithm.registry : Registry :=
  [(0, "Uncompressed"), (1, "Zip"), (2, "Zlib"), (3, "Bzip2")]

/-- A compression algorithm. -/
abbrev CompressionAlgorithm := Identifier CompressionAlgorithm.registry

namespace CompressionAlgorithm

@[match_pattern] def uncompressed : CompressionAlgorithm := .registered 0 rfl
@[match_pattern] def zip : CompressionAlgorithm := .registered 1 rfl
@[match_pattern] def zlib : CompressionAlgorithm := .registered 2 rfl

end CompressionAlgorithm

/-! ## Signature types -/

def SignatureType.registry : Registry :=
  [(0x00, "Binary"), (0x01, "Text"), (0x02, "Standalone"), (0x10, "GenericCertification"),
   (0x18, "SubkeyBinding"), (0x1F, "DirectKey"), (0x20, "KeyRevocation"), (0x40, "Timestamp")]

/-- What a signature is over. -/
abbrev SignatureType := Identifier SignatureType.registry

namespace SignatureType

@[match_pattern] def binary : SignatureType := .registered 0 rfl
@[match_pattern] def text : SignatureType := .registered 1 rfl

end SignatureType

/-! ## Literal data formats -/

/-- What literal data holds, by the octet of a letter; whether a letter is registered changes only its name. -/
structure LiteralFormat where
  code : UInt8
  deriving DecidableEq, Repr, Inhabited

namespace LiteralFormat

@[match_pattern] def binary : LiteralFormat := ⟨0x62⟩
@[match_pattern] def text : LiteralFormat := ⟨0x74⟩
@[match_pattern] def utf8 : LiteralFormat := ⟨0x75⟩

def registry : Registry :=
  [(0x62, "Binary"), (0x74, "Text"), (0x75, "Utf8"), (0x6C, "Local"), (0x6D, "Mime")]

def name (f : LiteralFormat) : String := (registry.lookup f.code).getD s!"unknown({f.code})"
def identifier (f : LiteralFormat) : String := (registry.lookup f.code).getD s!"Other({f.code})"

end LiteralFormat

/-! ## Missing capabilities -/

/-- An algorithm or mechanism a message names and that cannot be used. -/
inductive Unsupported where
  | symmetric (algorithm : SymmetricAlgorithm)
  | aead (algorithm : AeadAlgorithm)
  | hash (algorithm : HashAlgorithm)
  | publicKey (algorithm : PublicKeyAlgorithm)
  | compression (algorithm : CompressionAlgorithm)
  | specifier (kind : UInt8)
  deriving DecidableEq, Repr

/-- The wording of a missing capability. -/
def Unsupported.message : Unsupported → String
  | symmetric a => s!"symmetric algorithm {a.name}"
  | aead a => s!"AEAD algorithm {a.name}"
  | hash a => s!"hash algorithm {a.name}"
  | publicKey a => s!"public-key algorithm {a.name}"
  | compression a => s!"compression algorithm {a.name}"
  | specifier kind => s!"S2K type {kind}"

end OpenPGP
