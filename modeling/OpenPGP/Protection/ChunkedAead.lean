import OpenPGP.Crypto.Aead
import OpenPGP.Crypto.Derivation
import OpenPGP.MessageError
import OpenPGP.Packet
/-!
# Encrypted data in authenticated chunks

Version 2 of encrypted data: the content is cut into chunks of one length, each
sealed under its number, and a tag over nothing but the length of the content is
sealed under the number after the last. Key and nonces are derived from the
session key and the salt of the packet.
-/
namespace OpenPGP.Protection

open Crypto

/-- The derived key and the parameters of one packet. -/
structure ChunkedAead where
  algorithm : SymmetricAlgorithm
  mode : AeadAlgorithm
  key : Octets
  /-- What every nonce begins with. -/
  nonceStart : Octets
  /-- The associated data of every chunk. -/
  info : Octets
  /-- The octets of content in a chunk. -/
  chunkLength : Nat
  deriving DecidableEq

namespace ChunkedAead

/-- The octets of a tag, the same in every mode. -/
def tagLength : Nat := 16

def nonceSizeOf (mode : AeadAlgorithm) : Except CryptoError Nat :=
  match mode.nonceSize with
  | some size => .ok size
  | none => .error (.unsupported (.aead mode))

/-- Derives a key of the session key's length and the start of the nonces. -/
def derive (algorithm : SymmetricAlgorithm) (mode : AeadAlgorithm) (chunkSize : UInt8)
    (salt sessionKey : Octets) : Except CryptoError ChunkedAead := do
  let nonceSize ← nonceSizeOf mode
  let info := [0xD2, 2, algorithm.code, mode.code, chunkSize]
  let derived ← Hkdf.sha256 sessionKey (some salt) info (sessionKey.length + nonceSize - 8)
  return { algorithm, mode, info
           key := derived.take sessionKey.length
           nonceStart := derived.drop sessionKey.length
           chunkLength := EncryptedData.chunkLength chunkSize }

/-- Derives the same for a session key that must have the size of its cipher's keys. -/
def deriveSized (algorithm : SymmetricAlgorithm) (mode : AeadAlgorithm) (chunkSize : UInt8)
    (salt sessionKey : Octets) : Except CryptoError ChunkedAead :=
  match algorithm.keySize, mode.nonceSize with
  | none, _ => .error (.unsupported (.symmetric algorithm))
  | some _, none => .error (.unsupported (.aead mode))
  | some size, some _ =>
    if sessionKey.length ≠ size then .error (.invalidKeyLength size sessionKey.length)
    else derive algorithm mode chunkSize salt sessionKey

/-- The nonce of a number. -/
def nonce (c : ChunkedAead) (index : Nat) : Octets := c.nonceStart ++ Octets.bigEndian 8 index

/-- The associated data of the final tag over a content of a length. -/
def finalInfo (c : ChunkedAead) (length : Nat) : Octets := c.info ++ Octets.bigEndian 8 length

/-! ## Sealing -/

def sealing (c : ChunkedAead) (index : Nat) (associated content : Octets) :
    Except CryptoError Octets :=
  Aead.sealing c.algorithm c.mode c.key (c.nonce index) associated content

/-- The sealed chunks of a content, numbered from `index` on, and a final tag for a length. -/
def sealFrom (c : ChunkedAead) (length : Nat) : (index : Nat) → List Octets → Except CryptoError Octets
  | index, [] => c.sealing index (c.finalInfo length) []
  | index, chunk :: chunks => do
    return (← c.sealing index c.info chunk) ++ (← sealFrom c length (index + 1) chunks)

/-- The body of a packet with a content. -/
def encrypt (c : ChunkedAead) (content : Octets) : Except CryptoError Octets :=
  c.sealFrom content.length 0 (Octets.pieces c.chunkLength content)

/-! ## Opening -/

def opening (c : ChunkedAead) (index : Nat) (associated sealed : Octets) :
    Except CryptoError Octets :=
  Aead.opening c.algorithm c.mode c.key (c.nonce index) associated sealed

/-- Opens a chunk. -/
def openChunk (c : ChunkedAead) (index : Nat) (chunk : Octets) : Except CryptoError Octets :=
  c.opening index c.info chunk

/-- Checks the final tag over a content of a length; nothing may be sealed with it. -/
def openFinal (c : ChunkedAead) (index length : Nat) (tag : Octets) : Except CryptoError Unit := do
  let content ← c.opening index (c.finalInfo length) tag
  if content ≠ [] then throw .authenticationFailed

/-- A failure to open, where failed authentication is the defect of a check. -/
def failure (defect : IntegrityDefect) : CryptoError → DecryptionError
  | .authenticationFailed => .integrity defect
  | error => .crypto error

/-- The content of sealed chunks, numbered from `index` on. -/
def openFrom (c : ChunkedAead) : (index : Nat) → List Octets → Except DecryptionError Octets
  | _, [] => .ok []
  | index, chunk :: chunks =>
    if chunk.length ≤ tagLength then .error (.integrity .truncatedChunk)
    else do
      let content ← (c.openChunk index chunk).mapError (failure .chunkTag)
      return content ++ (← openFrom c (index + 1) chunks)

/-- The sealed chunks of a body. -/
def chunks (c : ChunkedAead) (body : Octets) : List Octets :=
  Octets.pieces (c.chunkLength + tagLength) (body.take (body.length - tagLength))

/-- The content of a body. -/
def decrypt (c : ChunkedAead) (body : Octets) : Except DecryptionError Octets := do
  if body.length < tagLength then throw (.integrity .shorterThanTag)
  let chunks := c.chunks body
  let content ← c.openFrom 0 chunks
  (c.openFinal chunks.length content.length (body.drop (body.length - tagLength))).mapError
    (failure .finalTag)
  return content

/-- Opens what comes first in a body: its first chunk, or the final tag of no content. -/
def openFirst (c : ChunkedAead) (body : Octets) : Except CryptoError Unit :=
  let length := body.length - tagLength
  if length = 0 then c.openFinal 0 0 body
  else (c.openChunk 0 (body.take (min length (c.chunkLength + tagLength)))).map fun _ => ()

/-- Whether what comes first in a body can be opened. -/
def firstOpens (c : ChunkedAead) (body : Octets) : Except CryptoError Bool :=
  if body.length < tagLength then .ok false
  else match c.openFirst body with
    | .ok _ => .ok true
    | .error .authenticationFailed => .ok false
    | .error error => .error error

end ChunkedAead

end OpenPGP.Protection
