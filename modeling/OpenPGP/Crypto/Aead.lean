import OpenPGP.Crypto.Aead.Eax
import OpenPGP.Crypto.Aead.Gcm
import OpenPGP.Crypto.Aead.Ocb
import OpenPGP.Crypto.Aes
/-!
# Authenticated encryption

EAX, OCB and GCM over AES behind one shape: a mode under a key, a nonce and
associated data turns plaintext into ciphertext of the same length and back, and
has a tag of sixteen octets for the pair. Sealing appends the tag; opening
recomputes it for what the ciphertext decrypts to and refuses any other.
-/
namespace OpenPGP.Crypto

/-- An implemented mode. -/
inductive AeadMode where
  | eax | ocb | gcm
  deriving DecidableEq, Repr

/-- A mode under a key, a nonce and associated data. -/
structure AeadContext where
  encrypt : Octets → Octets
  decrypt : Octets → Octets
  tag : (plaintext ciphertext : Octets) → Octets

namespace AeadContext

/-- The ciphertext and its tag. -/
def sealing (c : AeadContext) (plaintext : Octets) : Octets :=
  let ciphertext := c.encrypt plaintext
  ciphertext ++ c.tag plaintext ciphertext

/-- The plaintext, if the last sixteen octets are its tag. -/
def opening? (c : AeadContext) (sealed : Octets) : Option Octets :=
  if sealed.length < 16 then none
  else
    let ciphertext := sealed.take (sealed.length - 16)
    let plaintext := c.decrypt ciphertext
    if c.tag plaintext ciphertext = sealed.drop (sealed.length - 16) then some plaintext else none

end AeadContext

namespace AeadMode

def ofAlgorithm? : AeadAlgorithm → Option AeadMode
  | .eax => some eax
  | .ocb => some ocb
  | .gcm => some gcm
  | _ => none

def algorithm : AeadMode → AeadAlgorithm
  | eax => .eax
  | ocb => .ocb
  | gcm => .gcm

def nonceSize : AeadMode → Nat
  | eax => 16
  | ocb => 15
  | gcm => 12

/-- The mode under an expanded key. -/
def context (mode : AeadMode) (key : Aes.Key) (nonce associated : Octets) : AeadContext :=
  match mode with
  | eax =>
    let stream := Eax.stream key.encrypt nonce
    { encrypt := mask stream 0
      decrypt := mask stream 0
      tag := fun _ ciphertext => Eax.tag key.encrypt nonce associated ciphertext }
  | ocb =>
    { encrypt := fun p => (Ocb.transform key.encrypt key.encrypt nonce p).1
      decrypt := fun c => (Ocb.transform key.encrypt key.decrypt nonce c).1
      tag := fun plaintext _ => Ocb.tag key.encrypt nonce associated plaintext }
  | gcm =>
    let stream := Gcm.stream key.encrypt nonce
    { encrypt := mask stream 0
      decrypt := mask stream 0
      tag := fun _ ciphertext => Gcm.tag key.encrypt nonce associated ciphertext }

end AeadMode

namespace Aead

/-- The mode, cipher, nonce and key a packet names, or the first of them that does not do. -/
def context (algorithm : SymmetricAlgorithm) (mode : AeadAlgorithm) (key nonce associated : Octets) :
    Except CryptoError AeadContext :=
  match AeadMode.ofAlgorithm? mode with
  | none => .error (.unsupported (.aead mode))
  | some mode =>
    match Aes.KeySize.ofAlgorithm? algorithm with
    | none => .error (.unsupported (.symmetric algorithm))
    | some _ =>
      if nonce.length ≠ mode.nonceSize then
        .error (.invalidNonceLength mode.nonceSize nonce.length)
      else do return mode.context (← Aes.key algorithm key) nonce associated

def sealing (algorithm : SymmetricAlgorithm) (mode : AeadAlgorithm)
    (key nonce associated plaintext : Octets) : Except CryptoError Octets := do
  return (← context algorithm mode key nonce associated).sealing plaintext

def opening (algorithm : SymmetricAlgorithm) (mode : AeadAlgorithm)
    (key nonce associated sealed : Octets) : Except CryptoError Octets := do
  match (← context algorithm mode key nonce associated).opening? sealed with
  | some plaintext => return plaintext
  | none => throw .authenticationFailed

end Aead

end OpenPGP.Crypto
