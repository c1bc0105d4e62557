import OpenPGP.Crypto.Argon2
import OpenPGP.Crypto.Hash
import OpenPGP.Specifier
/-!
# Keys from passphrases

`Specifier.deriveKey` turns a passphrase into a key of any size. Hash-based
specifiers hash salt and passphrase, once or over and over up to a number of
octets; a key longer than a digest takes further digests, the n-th hashing n
zero octets first. Repetition is fed in blocks of about 4096 octets.
-/
namespace OpenPGP.Crypto

/-- What a hash-based specifier feeds to a hash: nothing but once, or a prescribed number of octets of
the endless repetition. -/
structure Repetition where
  data : Octets
  /-- The number of octets fed. -/
  total : Nat

namespace Repetition

/-- The data as it is. -/
def once (data : Octets) : Repetition := ⟨data, data.length⟩

/-- The data repeated up to a number of octets, but never cut short of one repetition. -/
def upTo (data : Octets) (count : Nat) : Repetition := ⟨data, max count data.length⟩

/-- Whole repetitions, about 4096 octets and at least one. -/
def block (r : Repetition) : Octets :=
  (List.replicate (max 1 (4096 / r.data.length)) r.data).flatten

/-- Feeds the repetition block by block, then the part of a block that is left. -/
def feed (r : Repetition) (h : Hasher) : Hasher :=
  let block := r.block
  let size := block.length
  (Nat.repeat (·.update block) (r.total / size) h).update (block.take (r.total % size))

end Repetition

/-- `count` digests of a repetition, each after one more zero octet than the one before. -/
def preloadedDigests (f : HashFunction) (r : Repetition) : (count zeros : Nat) → Octets
  | 0, _ => []
  | count + 1, zeros =>
    (r.feed ((Hasher.initial f).update (List.replicate zeros 0))).finish ++
      preloadedDigests f r count (zeros + 1)

/-- `size` octets from a hash; a key of no octets needs no hash. -/
def hashedKey (algorithm : HashAlgorithm) (r : Repetition) (size : Nat) : Except CryptoError Octets :=
  if size = 0 then .ok []
  else match HashFunction.ofAlgorithm? algorithm with
    | none => .error (.unsupported (.hash algorithm))
    | some f =>
      let digestSize := algorithm.digestSize.getD 1
      .ok ((preloadedDigests f r ((size + digestSize - 1) / digestSize) 0).take size)

end OpenPGP.Crypto

namespace OpenPGP

open Crypto

/-- A key of `size` octets from a passphrase. -/
def Specifier.deriveKey (s : Specifier) (passphrase : Octets) (size : Nat) :
    Except CryptoError Octets :=
  match s with
  | .simple hash => hashedKey hash (.once passphrase) size
  | .salted hash salt => hashedKey hash (.once (salt.val ++ passphrase)) size
  | .iterated hash salt count =>
    hashedKey hash (.upTo (salt.val ++ passphrase) (Specifier.decodeCount count)) size
  | .argon2 salt passes parallelism memoryExponent =>
    if memoryExponent.toNat ≥ 32 then .error (.invalidParameters .memoryExponent)
    else Argon2.derive ⟨passes.toNat, 1 <<< memoryExponent.toNat, parallelism.toNat⟩ size passphrase
      salt.val
  | .unknown kind _ => .error (.unsupported (.specifier kind))

end OpenPGP
