import OpenPGP.Algorithm
import OpenPGP.Subpacket
/-!
# Version 4 signatures

A signature names its type, key algorithm and hash, carries a hashed and an
unhashed subpacket area, the first two octets of the signed digest and the
signature values. The hashed area is kept as it was on the wire next to its
subpackets, because the trailer that is hashed after the data covers those
octets.
-/
namespace OpenPGP

/-- The values of a signature: 64 octets for Ed25519, anything for other algorithms. -/
inductive SignatureMaterial where
  | ed25519 (value : Octets.Sized 64)
  | uninterpreted (octets : Octets)
  deriving DecidableEq

/-- A version 4 signature. -/
structure Signature where
  type : SignatureType
  publicKeyAlgorithm : PublicKeyAlgorithm
  hashAlgorithm : HashAlgorithm
  /-- The hashed subpacket area as it is signed. -/
  hashedArea : Octets
  hashed : List Subpacket
  unhashed : List Subpacket
  /-- The first two octets of the signed digest. -/
  digestStart : Octets.Sized 2
  material : SignatureMaterial
  deriving DecidableEq

namespace SignatureMaterial

def octets : SignatureMaterial → Octets
  | ed25519 value => value.val
  | uninterpreted octets => octets

def describe : SignatureMaterial → String
  | ed25519 _ => "Ed25519(..)"
  | uninterpreted octets => s!"Opaque({octets.length} bytes)"

end SignatureMaterial

namespace Signature

/-- A signature whose hashed area is the encoding of its hashed subpackets. -/
def ofSubpackets (type : SignatureType) (publicKeyAlgorithm : PublicKeyAlgorithm)
    (hashAlgorithm : HashAlgorithm) (hashed unhashed : List Subpacket)
    (digestStart : Octets.Sized 2) (material : SignatureMaterial) : Signature :=
  { type, publicKeyAlgorithm, hashAlgorithm, hashedArea := Subpacket.encodeArea hashed, hashed,
    unhashed, digestStart, material }

/-! ## Wire form -/

/-- An area's length in two octets; a longer area is written as the greatest length. -/
def areaLength (length : Nat) : Octets := Octets.bigEndian 2 (min length 0xFFFF)

def field : Field Signature := do
  let version ← Field.octet
  if version ≠ 4 then Field.fail (.unsupportedVersion .signature version)
  else
    let type ← Field.octet
    let publicKey ← Field.octet
    let hash ← Field.octet
    let hashedArea ← Field.take (← Field.number 2)
    let hashed ← Field.ofExcept (Subpacket.decodeArea hashedArea)
    let unhashedArea ← Field.take (← Field.number 2)
    let unhashed ← Field.ofExcept (Subpacket.decodeArea unhashedArea)
    let digestStart ← Field.sized 2
    let material ← match (Identifier.ofCode publicKey : PublicKeyAlgorithm) with
      | PublicKeyAlgorithm.ed25519 => do pure (SignatureMaterial.ed25519 (← Field.sized 64))
      | _ => do pure (SignatureMaterial.uninterpreted (← Field.rest))
    return { type := .ofCode type, publicKeyAlgorithm := .ofCode publicKey, hashAlgorithm := .ofCode hash, hashedArea,
             hashed, unhashed, digestStart, material }

/-- The octets in front of the hashed area's length. -/
def start (s : Signature) : Octets :=
  [4, s.type.code, s.publicKeyAlgorithm.code, s.hashAlgorithm.code]

def encode (s : Signature) : Octets :=
  let unhashedArea := Subpacket.encodeArea s.unhashed
  s.start ++ areaLength s.hashedArea.length ++ s.hashedArea ++
    areaLength unhashedArea.length ++ unhashedArea ++ s.digestStart.val ++ s.material.octets

/-- The octets hashed after the signed data: the signature up to the end of its hashed area, then
`0x04 0xFF` and the number of those octets. -/
def hashTrailer (s : Signature) : Octets :=
  s.start ++ areaLength s.hashedArea.length ++ s.hashedArea ++ [0x04, 0xFF] ++
    Octets.bigEndian 4 (6 + min s.hashedArea.length 0xFFFF)

/-! ## What the subpackets say -/

/-- The first creation time in the hashed area. -/
def creationTime (s : Signature) : Option UInt32 :=
  s.hashed.findSome? fun p => match p.content with
    | .creationTime t => some t
    | _ => none

/-- The first validity period in the hashed area, in seconds; zero never expires. -/
def expirationTime (s : Signature) : Option UInt32 :=
  s.hashed.findSome? fun p => match p.content with
    | .expirationTime t => some t
    | _ => none

/-- Every issuer named, hashed area first: fingerprints, then key IDs. -/
def issuers (s : Signature) : List KeyIdentifier :=
  let all := s.hashed ++ s.unhashed
  (all.filterMap fun p => match p.content with
    | .issuerFingerprint f => some (.fingerprint f)
    | _ => none) ++
  (all.filterMap fun p => match p.content with
    | .issuer id => some (.keyId id)
    | _ => none)

/-- The type of the first critical hashed subpacket that is not interpreted. -/
def unknownCritical (s : Signature) : Option UInt8 :=
  s.hashed.findSome? fun p => match p.content with
    | .other tag _ => if p.critical then some tag else none
    | _ => none

end Signature

end OpenPGP
