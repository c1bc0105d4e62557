import OpenPGP.Crypto.Aes
/-!
# Cipher feedback

Each block of sixteen octets is exclusive-ored with the encryption of the
ciphertext block before it, the first with the encryption of zeros. Nothing is
needed of the cipher to undo this but that it gives whole blocks.
-/
namespace OpenPGP.Crypto

namespace CipherFeedback

/-- Encrypts with a block function, `feedback` being the ciphertext block before. -/
def encryptFrom (cipher : Octets → Octets) (feedback data : Octets) : Octets :=
  if _ended : data = [] then [] else
    let block := Octets.xor (data.take 16) (cipher feedback)
    block ++ encryptFrom cipher block (data.drop 16)
termination_by data.length
decreasing_by
  have : data.length ≠ 0 := fun e => _ended (List.length_eq_zero_iff.mp e)
  simp only [List.length_drop]; omega

/-- Decrypts with a block function, `feedback` being the ciphertext block before. -/
def decryptFrom (cipher : Octets → Octets) (feedback data : Octets) : Octets :=
  if _ended : data = [] then [] else
    let block := data.take 16
    Octets.xor block (cipher feedback) ++ decryptFrom cipher block (data.drop 16)
termination_by data.length
decreasing_by
  have : data.length ≠ 0 := fun e => _ended (List.length_eq_zero_iff.mp e)
  simp only [List.length_drop]; omega

/-- The feedback of the first block. -/
def start : Octets := List.replicate 16 0

def encrypt (algorithm : SymmetricAlgorithm) (key data : Octets) : Except CryptoError Octets := do
  let key ← Aes.key algorithm key
  return encryptFrom key.encrypt start data

def decrypt (algorithm : SymmetricAlgorithm) (key data : Octets) : Except CryptoError Octets := do
  let key ← Aes.key algorithm key
  return decryptFrom key.encrypt start data

end CipherFeedback

end OpenPGP.Crypto
