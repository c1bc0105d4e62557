import OpenPGP.Crypto.Hash
/-!
# Keyed hashing and key expansion

HMAC over any implemented hash, and HKDF with SHA-256: extraction of a
pseudorandom key from input keying material, then expansion to the length asked
for, which is at most 255 digests.
-/
namespace OpenPGP.Crypto

/-- HMAC: the key, hashed if longer than a block, masks an inner and an outer hash. -/
def hmac (f : HashFunction) (key data : Octets) : Octets :=
  let size := f.design.blockSize
  let key := (Octets.resize size (if key.length > size then f.hash key else key)).val
  let masked (mask : UInt8) := key.map (· ^^^ mask)
  f.hash (masked 0x5C ++ f.hash (masked 0x36 ++ data))

namespace Hkdf

/-- The pseudorandom key of some keying material; no salt means a digest of zeros. -/
def extract (salt : Option Octets) (material : Octets) : Octets :=
  hmac .sha256 (salt.getD (List.replicate 32 0)) material

/-- `count` more blocks of the expansion; each covers the one before, the info and its number. -/
def blocks (key info : Octets) : (count : Nat) → (number : Nat) → (last : Octets) → Octets
  | 0, _, _ => []
  | count + 1, number, last =>
    let block := hmac .sha256 key (last ++ info ++ [UInt8.ofNat number])
    block ++ blocks key info count (number + 1) block

/-- `length` octets derived from keying material. -/
def sha256 (material : Octets) (salt : Option Octets) (info : Octets) (length : Nat) :
    Except CryptoError Octets :=
  if length > 255 * 32 then .error (.invalidParameters (.expansion length))
  else .ok ((blocks (extract salt material) info ((length + 31) / 32) 1 []).take length)

end Hkdf

end OpenPGP.Crypto
