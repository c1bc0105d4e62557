import OpenPGP.Proofs.Hashing
import OpenPGP.Proofs.KeySizes
/-!
# Keys from hashed passphrases

A hash-based specifier says which octets are hashed: the passphrase, salt and passphrase, or so many
octets of the endless repetition of both. Repetition is fed in blocks, which are whole repetitions for a
passphrase of any length, so that cutting it into blocks and the beginning of one more loses and adds
nothing. A key is cut off the digests of these octets behind no zero octet, one, two and so on.

Results:
* `Repetition.feed_eq_update`: feeding in blocks is feeding the beginning of the endless repetition.
* `preloadedDigests_eq`: the digests that keys are cut off.
* `Specifier.deriveKey_hashed`: the key of any size from a hash-based specifier.
-/
namespace OpenPGP

open Crypto

namespace Crypto

/-! ## Endless repetition -/

/-- An octet of the endless repetition of some data. -/
def endless (data : Octets) (i : Nat) : UInt8 := data.getD (i % data.length) 0

/-- So many octets of the endless repetition of some data. -/
def repeated (data : Octets) (total : Nat) : Octets := (List.range total).map (endless data)

theorem repeated_length (data : Octets) : repeated data data.length = data := by
  refine List.ext_getElem (by simp [repeated]) fun i hi hdata => ?_
  simp [repeated, endless, Nat.mod_eq_of_lt hdata, hdata]

theorem take_repeated (data : Octets) {m n : Nat} (h : m ≤ n) :
    (repeated data n).take m = repeated data m := by
  rw [repeated, ← List.map_take, List.take_range, Nat.min_eq_left h, repeated]

/-- Behind whole repetitions the data begins anew. -/
theorem repeated_add (data : Octets) (n m : Nat) :
    repeated data (n * data.length + m) = repeated data (n * data.length) ++ repeated data m := by
  have hshift : endless data ∘ (n * data.length + ·) = endless data := by
    funext i
    simp [endless]
  rw [repeated, List.range_add, List.map_append, List.map_map, hshift]
  rfl

theorem flatten_replicate_repeated (data : Octets) (k n : Nat) :
    (List.replicate n (repeated data (k * data.length))).flatten =
      repeated data (n * k * data.length) := by
  induction n with
  | zero => simp [repeated]
  | succ n ih =>
    rw [List.replicate_succ, List.flatten_cons, ih, ← repeated_add, Nat.succ_mul n k, Nat.add_mul,
      Nat.add_comm]

namespace Repetition

/-- The octets that are fed. -/
def octets (r : Repetition) : Octets := repeated r.data r.total

theorem octets_once (data : Octets) : (once data).octets = data := repeated_length data

/-- How many repetitions are in a block. -/
def copies (r : Repetition) : Nat := max 1 (4096 / r.data.length)

theorem block_eq (r : Repetition) : r.block = repeated r.data (r.copies * r.data.length) := by
  have h := flatten_replicate_repeated r.data 1 r.copies
  rwa [Nat.one_mul, Nat.mul_one, repeated_length] at h

theorem length_block (r : Repetition) : r.block.length = r.copies * r.data.length := by
  rw [block_eq, repeated, List.length_map, List.length_range]

theorem update_repeat_update (block behind : Octets) (n : Nat) (h : Hasher) :
    (Nat.repeat (·.update block) n h).update behind =
      h.update ((List.replicate n block).flatten ++ behind) := by
  induction n generalizing behind with
  | zero => rfl
  | succ n ih =>
    have hlast : (List.replicate (n + 1) block).flatten = (List.replicate n block).flatten ++ block := by
      rw [List.replicate_succ', List.flatten_append, List.flatten_singleton]
    rw [Nat.repeat, Hasher.update_update, ih, hlast, List.append_assoc]

/-- **Feeding in blocks** is feeding the beginning of the endless repetition, if there is anything to
repeat. -/
theorem feed_eq_update (r : Repetition) (hr : r.data = [] → r.total = 0) (h : Hasher) :
    r.feed h = h.update r.octets := by
  have hsize := r.length_block
  -- without data there are no octets, and the beginning of a block is shorter than a block otherwise
  have hrest : r.total % r.block.length ≤ r.block.length := by
    by_cases hdata : r.data = []
    · rw [hr hdata, Nat.zero_mod]
      exact Nat.zero_le _
    · have hpos : 0 < r.block.length := by
        rw [hsize]
        exact Nat.mul_pos (Nat.lt_of_lt_of_le Nat.one_pos (Nat.le_max_left _ _))
          (List.length_pos_iff.mpr hdata)
      exact Nat.le_of_lt (Nat.mod_lt _ hpos)
  have htotal : r.total / r.block.length * r.copies * r.data.length + r.total % r.block.length = r.total := by
    rw [Nat.mul_assoc, ← hsize, Nat.div_add_mod']
  have hblocks : (List.replicate (r.total / r.block.length) r.block).flatten ++
      r.block.take (r.total % r.block.length) = r.octets := by
    rw [octets, ← htotal, repeated_add, ← flatten_replicate_repeated, ← block_eq, htotal]
    congr 1
    rw [hsize] at hrest ⊢
    rw [block_eq, take_repeated _ hrest]
  rw [feed, update_repeat_update, hblocks]

end Repetition

namespace Hasher

theorem foldl_update_singleton (f : HashFunction) (before data : Octets) :
    data.foldl (fun h b => h.update [b]) ((initial f).update before) =
      (initial f).update (before ++ data) := by
  induction data generalizing before with
  | nil => rw [List.append_nil, List.foldl_nil]
  | cons b data ih => rw [List.foldl_cons, update_update, ih, List.append_assoc, List.singleton_append]

end Hasher

/-! ## Digests -/

/-- The digests of some octets behind no zero octet, one, two and so on. -/
def digests (f : HashFunction) (data : Octets) (count : Nat) : Octets :=
  (List.range count).flatMap fun zeros => f.hash (List.replicate zeros 0 ++ data)

theorem preloadedDigests_eq (f : HashFunction) {r : Repetition} (hr : r.data = [] → r.total = 0)
    (count zeros : Nat) : preloadedDigests f r count zeros =
      (List.range count).flatMap fun i => f.hash (List.replicate (zeros + i) 0 ++ r.octets) := by
  induction count generalizing zeros with
  | zero => rfl
  | succ count ih =>
    have hshift (i : Nat) : zeros + 1 + i = zeros + (i + 1) := by omega
    rw [preloadedDigests, r.feed_eq_update hr, Hasher.update_update, Hasher.finish_update_initial, ih,
      List.range_succ_eq_map, List.flatMap_cons, List.flatMap_map]
    simp only [hshift, Nat.add_zero]

theorem HashFunction.exists_digestSize (f : HashFunction) :
    ∃ size, f.algorithm.digestSize = some size ∧ 0 < size := by
  cases f <;> exact ⟨_, rfl, by decide⟩

theorem length_digests {f : HashFunction} {size : Nat} (h : f.algorithm.digestSize = some size)
    (data : Octets) (count : Nat) : (digests f data count).length = count * size := by
  have hdigest (zeros : Nat) : (f.hash (List.replicate zeros 0 ++ data)).length = size :=
    Option.some.inj ((f.length_hash _).symm.trans h)
  rw [digests, Generator.length_flatMap_of_length hdigest, List.length_range, Nat.mul_comm]

/-- No digest is empty, so there are always enough. -/
theorem length_le_digests (f : HashFunction) (data : Octets) (count : Nat) :
    count ≤ (digests f data count).length := by
  obtain ⟨size, hsize, hpos⟩ := f.exists_digestSize
  rw [length_digests hsize]
  exact Nat.le_mul_of_pos_right count hpos

theorem digests_prefix (f : HashFunction) (data : Octets) {m n : Nat} (h : m ≤ n) :
    digests f data m <+: digests f data n := by
  obtain ⟨k, rfl⟩ := Nat.exists_eq_add_of_le h
  rw [digests, digests, List.range_add, List.flatMap_append]
  exact List.prefix_append _ _

/-- Where there are enough of them, it does not matter how many there are. -/
theorem take_digests (f : HashFunction) (data : Octets) {size m n : Nat}
    (hm : size ≤ (digests f data m).length) (hn : size ≤ (digests f data n).length) :
    (digests f data m).take size = (digests f data n).take size := by
  rcases Nat.le_total m n with h | h
  · obtain ⟨more, hmore⟩ := digests_prefix f data h
    rw [← hmore, List.take_append_of_le_length hm]
  · obtain ⟨more, hmore⟩ := digests_prefix f data h
    rw [← hmore, List.take_append_of_le_length hn]

theorem hashedKey_eq {f : HashFunction} {r : Repetition} (hr : r.data = [] → r.total = 0) (size : Nat)
    {count : Nat} (hcount : size ≤ (digests f r.octets count).length) :
    hashedKey f.algorithm r size = .ok ((digests f r.octets count).take size) := by
  obtain ⟨digestSize, hdigestSize, hpos⟩ := f.exists_digestSize
  rw [hashedKey]
  by_cases hsize : size = 0
  · rw [if_pos hsize, hsize, List.take_zero]
  · have henough : size ≤ (digests f r.octets ((size + digestSize - 1) / digestSize)).length := by
      rw [length_digests hdigestSize]
      have := Nat.lt_div_mul_add hpos (a := size + digestSize - 1)
      omega
    have hdigests := preloadedDigests_eq f hr ((size + digestSize - 1) / digestSize) 0
    simp only [Nat.zero_add] at hdigests
    rw [if_neg hsize, f.ofAlgorithm?_algorithm]
    simp only [hdigestSize, Option.getD_some, hdigests]
    exact congrArg Except.ok (take_digests f r.octets henough hcount)

end Crypto

/-! ## Specifiers -/

namespace Specifier

/-- What a hash-based specifier feeds to its hash for a passphrase, and which octets that is. -/
inductive Hashes (passphrase : Octets) : Specifier → HashAlgorithm → Repetition → Octets → Prop
  | simple (hash : HashAlgorithm) : Hashes passphrase (.simple hash) hash (.once passphrase) passphrase
  | salted (hash : HashAlgorithm) (salt : Octets.Sized 8) :
      Hashes passphrase (.salted hash salt) hash (.once (salt.val ++ passphrase)) (salt.val ++ passphrase)
  | iterated (hash : HashAlgorithm) (salt : Octets.Sized 8) (count : UInt8) :
      Hashes passphrase (.iterated hash salt count) hash
        (.upTo (salt.val ++ passphrase) (decodeCount count))
        (repeated (salt.val ++ passphrase) (max (decodeCount count) (salt.val ++ passphrase).length))

variable {s : Specifier} {passphrase stream : Octets} {hash : HashAlgorithm} {r : Repetition}

theorem Hashes.deriveKey (h : s.Hashes passphrase hash r stream) (size : Nat) :
    s.deriveKey passphrase size = hashedKey hash r size := by
  cases h <;> rfl

theorem Hashes.octets (h : s.Hashes passphrase hash r stream) : r.octets = stream := by
  cases h with
  | simple => exact Repetition.octets_once _
  | salted => exact Repetition.octets_once _
  | iterated => rfl

theorem Hashes.total_eq_zero (h : s.Hashes passphrase hash r stream) (hr : r.data = []) : r.total = 0 := by
  cases h with
  | simple => exact List.length_eq_zero_iff.mpr hr
  | salted => exact List.length_eq_zero_iff.mpr hr
  | iterated hash salt count =>
    -- a salt is never empty
    have hsalt : salt.val = [] := (List.append_eq_nil_iff.mp hr).1
    have hlength := salt.property
    rw [hsalt] at hlength
    cases hlength

/-- **A key from a hash-based specifier** is cut off the digests of the octets that the specifier says,
behind no zero octet, one, two and so on, of which there are enough for every size. It does not matter
that these octets are fed in blocks and not one by one, and a shorter key is the beginning of a longer
one. -/
theorem deriveKey_hashed {f : HashFunction} (h : s.Hashes passphrase hash r stream)
    (hf : HashFunction.ofAlgorithm? hash = some f) :
    (∀ size count, size ≤ (digests f stream count).length →
      s.deriveKey passphrase size = .ok ((digests f stream count).take size)) ∧
    (∀ size, ∃ count, size ≤ (digests f stream count).length) ∧
    (∀ before, r.feed ((Hasher.initial f).update before) =
      stream.foldl (fun h b => h.update [b]) ((Hasher.initial f).update before)) ∧
    ∀ size size', size ≤ size' → ∃ key key', s.deriveKey passphrase size = .ok key ∧ key.length = size ∧
      s.deriveKey passphrase size' = .ok key' ∧ key'.length = size' ∧ key <+: key' := by
  obtain rfl := HashFunction.algorithm_of_ofAlgorithm? hf
  have hkey {size count : Nat} (hcount : size ≤ (digests f stream count).length) :
      s.deriveKey passphrase size = .ok ((digests f stream count).take size) := by
    rw [h.deriveKey]
    rw [← h.octets] at hcount ⊢
    exact hashedKey_eq h.total_eq_zero size hcount
  have henough (size : Nat) : size ≤ (digests f stream size).length := length_le_digests f stream size
  refine ⟨fun size count => hkey, fun size => ⟨size, henough size⟩, fun before => ?_,
    fun size size' hle => ?_⟩
  · rw [Hasher.foldl_update_singleton, r.feed_eq_update h.total_eq_zero, h.octets, Hasher.update_update]
  · have hlong := henough size'
    have hshort : size ≤ (digests f stream size').length := Nat.le_trans hle hlong
    exact ⟨_, _, hkey hshort, List.length_take_of_le hshort, hkey hlong, List.length_take_of_le hlong,
      List.take_prefix_take_left hle⟩

/-- Salt and passphrase of more octets than a block, and than the specifier counts, are hashed once; forty
octets of key take two digests. -/
theorem deriveKey_hashed_long :
    ∃ passphrase stream : Octets, passphrase = List.replicate 5000 0x70 ∧
      stream = List.replicate 8 0 ++ passphrase ∧
      Hashes passphrase (.iterated .sha256 (.zero 8) 0) .sha256 (.upTo stream 1024) stream ∧
      HashFunction.ofAlgorithm? .sha256 = some .sha256 ∧
      (iterated .sha256 (.zero 8) 0).deriveKey passphrase 40 =
        .ok ((HashFunction.sha256.hash stream ++ HashFunction.sha256.hash (0 :: stream)).take 40) ∧
      ∃ key key', (iterated .sha256 (.zero 8) 0).deriveKey passphrase 16 = .ok key ∧ key.length = 16 ∧
        (iterated .sha256 (.zero 8) 0).deriveKey passphrase 40 = .ok key' ∧ key'.length = 40 ∧
        key <+: key' := by
  have h : Hashes (List.replicate 5000 0x70) (.iterated .sha256 (.zero 8) 0) .sha256
      (.upTo (List.replicate 8 0 ++ List.replicate 5000 0x70) 1024)
      (List.replicate 8 0 ++ List.replicate 5000 0x70) := by
    have hlong : max (decodeCount 0) (List.replicate 8 0 ++ List.replicate 5000 0x70 : Octets).length =
        (List.replicate 8 0 ++ List.replicate 5000 0x70 : Octets).length := by
      rw [List.length_append, List.length_replicate, List.length_replicate]
      decide
    have hiterated : Hashes (List.replicate 5000 0x70) _ _ _ _ := .iterated .sha256 (.zero 8) 0
    rwa [show (Octets.Sized.zero 8).val = List.replicate 8 0 from rfl, hlong, repeated_length] at hiterated
  obtain ⟨hkey, -, -, hprefix⟩ := deriveKey_hashed h rfl
  refine ⟨_, _, rfl, rfl, h, rfl, ?_, hprefix 16 40 (by decide)⟩
  have htwo : digests .sha256 (List.replicate 8 0 ++ List.replicate 5000 0x70) 2 =
      HashFunction.sha256.hash (List.replicate 8 0 ++ List.replicate 5000 0x70) ++
        HashFunction.sha256.hash (0 :: (List.replicate 8 0 ++ List.replicate 5000 0x70)) :=
    congrArg (_ ++ ·) (List.append_nil _)
  have hlength := length_digests (f := .sha256) rfl (List.replicate 8 0 ++ List.replicate 5000 0x70) 2
  rw [hkey 40 2 (by rw [hlength]; decide), htwo]

end Specifier

end OpenPGP
