import Mathlib.Data.Nat.Init
import OpenPGP.Crypto.Passphrase
import OpenPGP.Proofs.AuthenticatedEncryption
/-!
# Keys of the right size

Every derivation gives a key of exactly the size that is asked for, and fails
only where a parameter is out of its bounds. So whatever is sealed with a
derived key has a key that fits its cipher.

Results:
* `HashFunction.length_hash`: digests have the registered size.
* `Hkdf.sha256_sized`, `Argon2.derive_sized`: what is derived has the size asked for.
* `Protection.ChunkedAead.deriveSized_fits`: chunks are sealed under a key and nonces that fit.
-/
namespace OpenPGP

open Crypto

namespace Crypto

/-! ## Hashes -/

namespace HashFunction

theorem length_hash (f : HashFunction) (data : Octets) :
    f.algorithm.digestSize = some (f.hash data).length := by
  cases f <;> rfl

theorem isCanonical_algorithm (f : HashFunction) : f.algorithm.IsCanonical := by
  cases f <;> exact Identifier.isCanonical_registered _ _

theorem ofAlgorithm?_algorithm (f : HashFunction) : ofAlgorithm? f.algorithm = some f := by
  cases f <;> rfl

theorem algorithm_of_ofAlgorithm? {a : HashAlgorithm} {f : HashFunction} (h : ofAlgorithm? a = some f) :
    a = f.algorithm := by
  unfold ofAlgorithm? at h
  split at h <;> cases h <;> rfl

end HashFunction

theorem length_hmac (f : HashFunction) (key data : Octets) :
    f.algorithm.digestSize = some (hmac f key data).length :=
  f.length_hash _

namespace Hkdf

theorem length_blocks (key info : Octets) (count number : Nat) (last : Octets) :
    (blocks key info count number last).length = 32 * count := by
  induction count generalizing number last with
  | zero => rfl
  | succ count ih =>
    have hblock := length_hmac .sha256 key (last ++ info ++ [UInt8.ofNat number])
    rw [blocks, List.length_append, ih, ← Option.some.inj hblock]
    omega

theorem sha256_sized (material : Octets) (salt : Option Octets) (info : Octets) {length : Nat}
    (h : length ≤ 255 * 32) : ∃ key, sha256 material salt info length = .ok key ∧ key.length = length := by
  refine ⟨_, if_neg (Nat.not_lt.mpr h), ?_⟩
  rw [List.length_take, length_blocks]
  omega

end Hkdf

theorem Hasher.length_finish (h : Hasher) :
    h.function.algorithm.digestSize = some h.finish.length := by
  obtain ⟨f, context⟩ := h
  cases f <;> rfl

/-! ## Memory-hard derivation -/

namespace Blake2b

theorem length_compress (h : List UInt64) (block : Octets) (length : Nat) (last : Bool) :
    (compress h block length last).length = 8 := rfl

theorem length_absorb (h : List UInt64) (seen : Nat) (blocks : List Octets) :
    (absorb h seen blocks).length = 8 := by
  fun_induction absorb h seen blocks with
  | case1 => exact length_compress _ _ _ _
  | case2 => exact length_compress _ _ _ _
  | case3 h seen block rest hne ih => exact ih

theorem length_hash {size : Nat} (h : size ≤ 64) (data : Octets) : (hash size data).length = size := by
  rw [hash, List.length_take, Generator.length_flatMap_of_length (n := 8) (fun _ => rfl), length_absorb]
  omega

end Blake2b

theorem Argon2.length_longHash {size : Nat} (h : size ≤ 64) (data : Octets) :
    (longHash size data).length = size := by
  rw [longHash, chain, if_pos h, Blake2b.length_hash h]

theorem Argon2.derive_sized {c : Cost} {size : Nat} (hc : c.defect? size = none) (h : size ≤ 64)
    (password salt : Octets) : ∃ key, derive c size password salt = .ok key ∧ key.length = size := by
  unfold derive
  rw [hc]
  exact ⟨_, rfl, length_longHash h _⟩

/-! ## Passphrases -/

theorem Repetition.function_feed (r : Repetition) (h : Hasher) : (r.feed h).function = h.function := by
  have hblocks (n : Nat) : (Nat.repeat (·.update r.block) n h).function = h.function := by
    induction n with
    | zero => rfl
    | succ n ih => exact ih
  exact hblocks _

theorem length_preloadedDigests {f : HashFunction} {size : Nat} (h : f.algorithm.digestSize = some size)
    (r : Repetition) (count zeros : Nat) :
    (preloadedDigests f r count zeros).length = size * count := by
  induction count generalizing zeros with
  | zero => rfl
  | succ count ih =>
    have hdigest := Hasher.length_finish (r.feed ((Hasher.initial f).update (List.replicate zeros 0)))
    rw [r.function_feed, show ((Hasher.initial f).update _).function = f from rfl, h] at hdigest
    rw [preloadedDigests, List.length_append, ih, ← Option.some.inj hdigest, Nat.mul_succ, Nat.add_comm]

end Crypto

namespace Specifier

theorem deriveKey_iterated (salt : Octets.Sized 8) (count : UInt8) (passphrase : Octets) (size : Nat) :
    ∃ key, (iterated .sha256 salt count).deriveKey passphrase size = .ok key ∧ key.length = size := by
  by_cases hsize : size = 0
  · exact ⟨[], if_pos hsize, hsize.symm⟩
  · refine ⟨_, if_neg hsize, ?_⟩
    have hdigest : HashAlgorithm.sha256.digestSize.getD 1 = 32 := rfl
    rw [List.length_take, length_preloadedDigests (f := .sha256) rfl, hdigest]
    omega

theorem deriveKey_argon2 (salt : Octets.Sized 16) (passphrase : Octets) {size : Nat} (hl : 4 ≤ size)
    (hu : size ≤ 64) :
    ∃ key, (argon2 salt 1 1 10).deriveKey passphrase size = .ok key ∧ key.length = size := by
  have hdefect : Argon2.Cost.defect? ⟨1, 1024, 1⟩ size = none := by
    simp [Argon2.Cost.defect?, Nat.not_lt.mpr hl]
  have hderive : (argon2 salt 1 1 10).deriveKey passphrase size =
      Argon2.derive ⟨1, 1024, 1⟩ size passphrase salt.val := rfl
  rw [hderive]
  exact Argon2.derive_sized hdefect hu passphrase salt.val

end Specifier

/-! ## Chunks -/

namespace Protection.ChunkedAead

theorem nonceSizeOf_algorithm (kind : AeadMode) : nonceSizeOf kind.algorithm = .ok kind.nonceSize := by
  cases kind <;> rfl

/-- A session key of the cipher's size gives parameters that fit, and the reader of the data derives the
same. -/
theorem deriveSized_fits (size : Aes.KeySize) (kind : AeadMode) (chunkSize : UInt8) (salt : Octets)
    {key : Octets} (hk : key.length = size.octets) :
    ∃ c, derive size.algorithm kind.algorithm chunkSize salt key = .ok c ∧
      deriveSized size.algorithm kind.algorithm chunkSize salt key = .ok c ∧ c.Fits size kind ∧
      c.chunkLength = EncryptedData.chunkLength chunkSize := by
  have hnonce : 8 ≤ kind.nonceSize ∧ kind.nonceSize ≤ 16 := by cases kind <;> decide
  have hsize : size.octets ≤ 32 := by cases size <;> decide
  have hlimit : key.length + kind.nonceSize - 8 ≤ 255 * 32 := by omega
  obtain ⟨derived, hderived, hlength⟩ := Hkdf.sha256_sized key (some salt)
    [0xD2, 2, size.algorithm.code, kind.algorithm.code, chunkSize] hlimit
  have hderive : derive size.algorithm kind.algorithm chunkSize salt key = .ok _ :=
    Except.bind_eq_ok.mpr ⟨_, nonceSizeOf_algorithm kind, Except.bind_eq_ok.mpr ⟨_, hderived, rfl⟩⟩
  refine ⟨_, hderive, ?_, ⟨rfl, ?_, rfl, ?_, ?_⟩, rfl⟩
  · have hkey : size.algorithm.keySize = some key.length := by rw [hk]; cases size <;> rfl
    have hnonce : kind.algorithm.nonceSize = some kind.nonceSize := by cases kind <;> rfl
    simp only [deriveSized, hkey, hnonce, ne_eq, not_true_eq_false, if_false, hderive]
  · rw [List.length_take, hlength, hk]
    omega
  · rw [List.length_drop, hlength]
    omega
  · simp only [EncryptedData.chunkLength, Nat.one_shiftLeft]
    exact Nat.two_pow_pos _

end Protection.ChunkedAead

end OpenPGP
