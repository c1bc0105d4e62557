import OpenPGP.Algorithm
/-!
# Failures of primitive operations
-/
namespace OpenPGP

/-- What is wrong with key material. -/
inductive KeyDefect where
  | lowOrderEphemeral | lowOrderRecipient | materialMismatch | invalidPoint
  | cipherMissing | algorithmMismatch | cipherMismatch
  deriving DecidableEq, Repr

def KeyDefect.message : KeyDefect → String
  | lowOrderEphemeral => "low order ephemeral point"
  | lowOrderRecipient => "low order recipient point"
  | materialMismatch => "session key material does not match key"
  | invalidPoint => "invalid Ed25519 point"
  | cipherMissing => "session key without cipher"
  | algorithmMismatch => "key algorithm differs from key packet"
  | cipherMismatch => "session key does not fit cipher"

/-- What is wrong with the parameters of a key derivation. -/
inductive ParameterDefect where
  | memoryExponent | memoryCost | timeCost | threads | output
  | expansion (length : Nat)
  deriving DecidableEq, Repr

def ParameterDefect.message : ParameterDefect → String
  | memoryExponent => "memory exponent too large"
  | memoryCost => "memory cost is too small"
  | timeCost => "time cost is too small"
  | threads => "not enough threads"
  | output => "output is too short"
  | expansion length => s!"HKDF output of {length} bytes"

/-- Why a primitive operation failed. -/
inductive CryptoError where
  | unsupported (missing : Unsupported)
  | invalidKeyLength (expected actual : Nat)
  | invalidNonceLength (expected actual : Nat)
  | authenticationFailed
  | invalidKeyMaterial (defect : KeyDefect)
  | invalidParameters (defect : ParameterDefect)
  | badSignature
  deriving DecidableEq, Repr

namespace CryptoError

def message : CryptoError → String
  | unsupported missing => s!"unsupported {missing.message}"
  | invalidKeyLength expected actual => s!"invalid key length: expected {expected}, got {actual}"
  | invalidNonceLength expected actual => s!"invalid nonce length: expected {expected}, got {actual}"
  | authenticationFailed => "authentication failed"
  | invalidKeyMaterial defect => s!"invalid key material: {defect.message}"
  | invalidParameters defect => s!"invalid key derivation parameters: {defect.message}"
  | badSignature => "bad signature"

/-- Whether the failure is a missing capability and not bad input. -/
def isUnsupported : CryptoError → Bool
  | unsupported _ => true
  | _ => false

end CryptoError

end OpenPGP
