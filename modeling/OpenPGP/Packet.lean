import OpenPGP.Signature
import OpenPGP.Specifier
/-!
# Packets

The packets a message is made of. `Packet.decode` reads the body of a tag and
`Packet.body` writes it back; tags without a meaning in a message keep their
octets. Framing, which puts a tag and a length in front of a body, is
`OpenPGP.Framing`.
-/
namespace OpenPGP

/-! ## Session key packets -/

/-- The encrypted part of a session key packet: X25519, or anything of other algorithms. The cipher
stands in clear in version 3. -/
inductive SessionKeyMaterial where
  | x25519 (ephemeral : Octets.Sized 32) (algorithm : Option SymmetricAlgorithm) (wrapped : Octets)
  | uninterpreted (octets : Octets)
  deriving DecidableEq

/-- A session key encrypted to a public key; no recipient means an anonymous one. -/
structure PublicKeySessionKey where
  version : UInt8
  recipient : Option KeyIdentifier
  algorithm : PublicKeyAlgorithm
  material : SessionKeyMaterial
  deriving DecidableEq

/-- A session key encrypted with a passphrase. In version 4 without an encrypted key the derived key
is the session key. -/
inductive PassphraseSessionKey where
  | v4 (algorithm : SymmetricAlgorithm) (specifier : Specifier) (encryptedKey : Option Octets)
  | v6 (algorithm : SymmetricAlgorithm) (mode : AeadAlgorithm) (specifier : Specifier)
      (iv encryptedKey : Octets)
  deriving DecidableEq

namespace PublicKeySessionKey

/-- The recipient of a version: a key ID, or a length and a fingerprint. -/
def recipientField (version : UInt8) : Field (Option KeyIdentifier) := do
  match version with
  | 3 =>
    let id : KeyId ← Field.sized 8
    return if id.isWildcard then none else some (.keyId id)
  | 6 =>
    let length ← Field.octet
    if length = 0 then return none
    else
      let keyVersion ← Field.octet
      let octets ← Field.take (length.toNat - 1)
      match Fingerprint.ofOctets? keyVersion octets with
      | some fingerprint => return some (.fingerprint fingerprint)
      | none => Field.fail (.invalidField .recipient)
  | version => Field.fail (.unsupportedVersion .publicKeySessionKey version)

def materialField (version : UInt8) : PublicKeyAlgorithm → Field SessionKeyMaterial
  | .x25519 => do
    let ephemeral ← Field.sized 32
    let length ← Field.octet
    if version = 3 then
      let cipher ← Field.octet
      if length = 0 then Field.fail (.invalidField .wrappedKeyLength)
      else return .x25519 ephemeral (some (.ofCode cipher)) (← Field.take (length.toNat - 1))
    else return .x25519 ephemeral none (← Field.take length.toNat)
  | _ => do return .uninterpreted (← Field.rest)

def field : Field PublicKeySessionKey := do
  let version ← Field.octet
  let recipient ← recipientField version
  let algorithm ← Field.octet
  let material ← materialField version (.ofCode algorithm)
  return { version, recipient, algorithm := .ofCode algorithm, material }

/-- The wire form of the recipient; version 3 has only key IDs, other versions only fingerprints. -/
def encodeRecipient (p : PublicKeySessionKey) : Octets :=
  if p.version = 3 then (p.recipient.elim KeyId.wildcard KeyIdentifier.id).val
  else match p.recipient with
    | some (.fingerprint f) => UInt8.ofNat (f.octets.length + 1) :: f.version :: f.octets
    | _ => [0]

def encodeMaterial : SessionKeyMaterial → Octets
  | .x25519 ephemeral (some algorithm) wrapped =>
    ephemeral.val ++ UInt8.ofNat (wrapped.length + 1) :: algorithm.code :: wrapped
  | .x25519 ephemeral none wrapped => ephemeral.val ++ UInt8.ofNat wrapped.length :: wrapped
  | .uninterpreted octets => octets

def encode (p : PublicKeySessionKey) : Octets :=
  p.version :: p.encodeRecipient ++ p.algorithm.code :: encodeMaterial p.material

end PublicKeySessionKey

namespace PassphraseSessionKey

def specifier : PassphraseSessionKey → Specifier
  | v4 _ s _ => s
  | v6 _ _ s _ _ => s

def version : PassphraseSessionKey → UInt8
  | v4 .. => 4
  | v6 .. => 6

def field : Field PassphraseSessionKey := do
  match ← Field.octet with
  | 4 =>
    let algorithm ← Field.octet
    let specifier ← Specifier.field
    let rest ← Field.rest
    return v4 (.ofCode algorithm) specifier (if rest.isEmpty then none else some rest)
  | 6 =>
    let fieldCount ← Field.octet
    let algorithm ← Field.octet
    let mode ← Field.octet
    let length ← Field.octet
    let octets ← Field.take length.toNat
    let (specifier, _) ← Field.ofExcept (Specifier.field.run .specifier octets)
    if fieldCount.toNat < 3 + length.toNat then Field.fail (.invalidField .fieldCount)
    else
      let iv ← Field.take (fieldCount.toNat - (3 + length.toNat))
      return v6 (.ofCode algorithm) (.ofCode mode) specifier iv (← Field.rest)
  | version => Field.fail (.unsupportedVersion .passphraseSessionKey version)

def encode : PassphraseSessionKey → Octets
  | v4 algorithm specifier encryptedKey =>
    4 :: algorithm.code :: specifier.encode ++ encryptedKey.getD []
  | v6 algorithm mode specifier iv encryptedKey =>
    let octets := specifier.encode
    [6, UInt8.ofNat (3 + octets.length + iv.length), algorithm.code, mode.code,
      UInt8.ofNat octets.length] ++ octets ++ iv ++ encryptedKey

end PassphraseSessionKey

/-! ## Signature announcements -/

/-- Announces a signature that follows the data (version 3). -/
structure OnePassSignature where
  type : SignatureType
  hashAlgorithm : HashAlgorithm
  publicKeyAlgorithm : PublicKeyAlgorithm
  issuer : KeyId
  /-- Whether no further announcement over the same data follows. -/
  last : Bool
  deriving DecidableEq

namespace OnePassSignature

def field : Field OnePassSignature := do
  let version ← Field.octet
  if version ≠ 3 then Field.fail (.unsupportedVersion .onePassSignature version)
  else
    let type ← Field.octet
    let hash ← Field.octet
    let publicKey ← Field.octet
    let issuer ← Field.sized 8
    let last ← Field.octet
    return { type := .ofCode type, hashAlgorithm := .ofCode hash, publicKeyAlgorithm := .ofCode publicKey, issuer,
             last := last ≠ 0 }

def encode (p : OnePassSignature) : Octets :=
  [3, p.type.code, p.hashAlgorithm.code, p.publicKeyAlgorithm.code] ++ p.issuer.val ++
    [if p.last then 1 else 0]

end OnePassSignature

/-! ## Data packets -/

/-- A compressed packet sequence. -/
structure CompressedData where
  algorithm : CompressionAlgorithm
  body : Octets
  deriving DecidableEq

/-- Encrypted data with integrity protection: CFB with a modification detection code, or chunked AEAD. -/
inductive EncryptedData where
  | v1 (body : Octets)
  | v2 (algorithm : SymmetricAlgorithm) (mode : AeadAlgorithm) (chunkSize : UInt8)
      (salt : Octets.Sized 32) (body : Octets)
  deriving DecidableEq

/-- Literal data: the content of a message, with hints about it. -/
structure LiteralData where
  format : LiteralFormat
  filename : Octets
  modificationTime : UInt32
  body : Octets
  deriving DecidableEq

namespace EncryptedData

def version : EncryptedData → UInt8
  | v1 _ => 1
  | v2 .. => 2

def body : EncryptedData → Octets
  | v1 body => body
  | v2 _ _ _ _ body => body

/-- The greatest chunk size octet. -/
def maxChunkSize : UInt8 := 16

/-- The octets of plaintext in a chunk: a 64-bit word with one bit set. -/
def chunkLength (chunkSize : UInt8) : Nat := 1 <<< ((chunkSize.toNat + 6) % 64)

def field : Field EncryptedData := do
  match ← Field.octet with
  | 1 => return v1 (← Field.rest)
  | 2 =>
    let algorithm ← Field.octet
    let mode ← Field.octet
    let chunkSize ← Field.octet
    if chunkSize > maxChunkSize then Field.fail (.invalidField .chunkSize)
    else
      let salt ← Field.sized 32
      return v2 (.ofCode algorithm) (.ofCode mode) chunkSize salt (← Field.rest)
  | version => Field.fail (.unsupportedVersion .encryptedData version)

def encode : EncryptedData → Octets
  | v1 body => 1 :: body
  | v2 algorithm mode chunkSize salt body =>
    [2, algorithm.code, mode.code, chunkSize] ++ salt.val ++ body

end EncryptedData

namespace LiteralData

def field : Field LiteralData := do
  let format ← Field.octet
  let length ← Field.octet
  let filename ← Field.take length.toNat
  let time ← Field.number 4
  return { format := ⟨format⟩, filename, modificationTime := time.toUInt32, body := ← Field.rest }

/-- The wire form; only the first 255 octets of the file name fit. -/
def encode (p : LiteralData) : Octets :=
  let name := p.filename.take 255
  [p.format.code, UInt8.ofNat name.length] ++ name ++ Octets.bigEndian 4 p.modificationTime.toNat ++
    p.body

end LiteralData

/-! ## Packets -/

/-- A packet of a message. -/
inductive Packet where
  | publicKeySessionKey (packet : PublicKeySessionKey)
  | signature (packet : Signature)
  | passphraseSessionKey (packet : PassphraseSessionKey)
  | onePassSignature (packet : OnePassSignature)
  | compressedData (packet : CompressedData)
  /-- Encrypted data without integrity protection. -/
  | unprotectedData (body : Octets)
  | marker
  | literalData (packet : LiteralData)
  | encryptedData (packet : EncryptedData)
  | padding (length : Nat)
  | unknown (tag : UInt8) (body : Octets)
  deriving DecidableEq

namespace Packet

def tag : Packet → UInt8
  | publicKeySessionKey _ => 1
  | signature _ => 2
  | passphraseSessionKey _ => 3
  | onePassSignature _ => 4
  | compressedData _ => 8
  | unprotectedData _ => 9
  | marker => 10
  | literalData _ => 11
  | encryptedData _ => 18
  | padding _ => 21
  | unknown tag _ => tag

/-- Whether the body of a tag may come in parts: the four kinds of data. -/
def allowsPartialLength (tag : UInt8) : Bool := tag = 8 || tag = 9 || tag = 11 || tag = 18

/-- Whether a reader that does not know the tag skips the packet. -/
def isNonCritical (tag : UInt8) : Bool := 40 ≤ tag && tag ≤ 63

/-- The body of every marker: the letters PGP. -/
def markerBody : Octets := [0x50, 0x47, 0x50]

/-- Reads a whole body; octets behind the last field are left unread. -/
private def whole {α : Type} (part : Part) (field : Field α) (wrap : α → Packet) (body : Octets) :
    Except PacketError Packet :=
  (field.run part body).map fun r => wrap r.1

/-- The packet of a tag and a body. -/
def decode (tag : UInt8) (body : Octets) : Except PacketError Packet :=
  match tag with
  | 1 => whole .publicKeySessionKey PublicKeySessionKey.field publicKeySessionKey body
  | 2 => whole .signature Signature.field signature body
  | 3 => whole .passphraseSessionKey PassphraseSessionKey.field passphraseSessionKey body
  | 4 => whole .onePassSignature OnePassSignature.field onePassSignature body
  | 8 =>
    match body with
    | [] => .error (.truncated .compressedData)
    | algorithm :: body => .ok (compressedData ⟨.ofCode algorithm, body⟩)
  | 9 => .ok (unprotectedData body)
  | 10 => if body = markerBody then .ok marker else .error (.invalidField .markerBody)
  | 11 => whole .literalData LiteralData.field literalData body
  | 18 => whole .encryptedData EncryptedData.field encryptedData body
  | 21 => .ok (padding body.length)
  | tag => .ok (unknown tag body)

/-- The body a packet is written with; padding is written as zeros. -/
def body : Packet → Octets
  | publicKeySessionKey p => p.encode
  | signature p => p.encode
  | passphraseSessionKey p => p.encode
  | onePassSignature p => p.encode
  | compressedData p => p.algorithm.code :: p.body
  | unprotectedData body => body
  | marker => markerBody
  | literalData p => p.encode
  | encryptedData p => p.encode
  | padding length => List.replicate length 0
  | unknown _ body => body

end Packet

end OpenPGP
