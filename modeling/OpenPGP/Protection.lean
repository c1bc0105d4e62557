import OpenPGP.Protection.ChunkedAead
import OpenPGP.Protection.ModificationDetection
/-!
# Opening encrypted data

`EncryptedData.decrypt` gives the content of an encrypted data packet, whole and
authenticated or not at all. `EncryptedData.quickCheck` looks at its beginning
only, and is meant to turn away the keys that are certainly wrong.
-/
namespace OpenPGP.EncryptedData

open Protection

/-- The content under a session key, which must name its cipher. -/
def decrypt (data : EncryptedData) (key : SessionKey) : Except DecryptionError Octets :=
  match key.algorithm with
  | none => .error (.crypto (.invalidKeyMaterial .cipherMissing))
  | some algorithm =>
    match data with
    | v1 body => decryptWithCode algorithm key.octets body
    | v2 algorithm mode chunkSize salt body => do
      let chunked ← (ChunkedAead.deriveSized algorithm mode chunkSize salt.val key.octets).mapError
        .crypto
      chunked.decrypt body

/-- Why a key does not fit version 2 data: a missing capability, or the key itself. -/
def misfit : CryptoError → CryptoError
  | .unsupported algorithm => .unsupported algorithm
  | _ => .invalidKeyMaterial .cipherMismatch

/-- Whether the beginning of the data can be decrypted under a key. -/
def quickCheck (data : EncryptedData) (algorithm : SymmetricAlgorithm) (key : Octets) :
    Except CryptoError Bool :=
  match data with
  | v1 body => startRepeats algorithm key body
  | v2 algorithm mode chunkSize salt body => do
    let chunked ← (ChunkedAead.deriveSized algorithm mode chunkSize salt.val key).mapError misfit
    chunked.firstOpens body

end OpenPGP.EncryptedData
