import OpenPGP.Crypto.CipherFeedback
import OpenPGP.Crypto.Hash
import OpenPGP.MessageError
/-!
# Encrypted data with a modification detection code

Version 1 of encrypted data: a random block whose last two octets are repeated,
the content, and a packet of twenty octets that holds the SHA-1 of everything
before them, all of it in cipher feedback.
-/
namespace OpenPGP.Protection

open Crypto

/-- The header of the packet that holds the code. -/
def codeHeader : Octets := [0xD3, 0x14]

/-- The length of that packet. -/
def codeLength : Nat := 22

/-- The code of everything up to its header. -/
def modificationCode (data : Octets) : Octets := HashFunction.hash .sha1 data

/-- What is encrypted: a start whose last two octets are repeated, the content, the code. -/
def withCode (start content : Octets) : Octets :=
  let data := start ++ start.drop (start.length - 2) ++ content ++ codeHeader
  data ++ modificationCode data

/-- The content of decrypted data that starts with a block of a size. -/
def withoutCode (block : Nat) (data : Octets) : Except IntegrityDefect Octets :=
  let split := data.length - codeLength
  let code := data.drop split
  if code.take 2 ≠ codeHeader then .error .codeMissing
  else if code.drop 2 ≠ modificationCode (data.take (split + 2)) then .error .codeMismatch
  else .ok ((data.take split).drop (block + 2))

/-- The block size of a cipher. -/
def blockSizeOf (algorithm : SymmetricAlgorithm) : Except CryptoError Nat :=
  match algorithm.blockSize with
  | some size => .ok size
  | none => .error (.unsupported (.symmetric algorithm))

/-- The body of version 1 data with a content; `start` is a random block. -/
def encryptWithCode (algorithm : SymmetricAlgorithm) (key start content : Octets) :
    Except CryptoError Octets :=
  CipherFeedback.encrypt algorithm key (withCode start content)

/-- The content of version 1 data, if its code is right. -/
def decryptWithCode (algorithm : SymmetricAlgorithm) (key body : Octets) :
    Except DecryptionError Octets := do
  let block ← (blockSizeOf algorithm).mapError .crypto
  if body.length < block + 2 + codeLength then throw (.integrity .shorterThanCode)
  let data ← (CipherFeedback.decrypt algorithm key body).mapError .crypto
  (withoutCode block data).mapError .integrity

/-- Whether the start of version 1 data repeats itself under a key. -/
def startRepeats (algorithm : SymmetricAlgorithm) (key body : Octets) : Except CryptoError Bool := do
  let block ← blockSizeOf algorithm
  if body.length < block + 2 then return false
  let start ← CipherFeedback.decrypt algorithm key (body.take (block + 2))
  return (start.drop (block - 2)).take 2 = start.drop block

end OpenPGP.Protection
