import OpenPGP.Octets
/-!
# Key streams and doubling

Data exclusive-ored with a stream of blocks, each a function of its number, and
the doubling of blocks in GF(2^128) that message authentication and offset
modes derive their masks with.

Results:
* `mask_mask`: masking twice with one stream gives the data back.
-/
namespace OpenPGP.Crypto

/-- `data` exclusive-ored with the blocks of a stream from number `i` on. -/
def mask (stream : Nat → Octets.Sized 16) (i : Nat) (data : Octets) : Octets :=
  if _ended : data = [] then [] else
    Octets.xor (data.take 16) (stream i).val ++ mask stream (i + 1) (data.drop 16)
termination_by data.length
decreasing_by
  have : data.length ≠ 0 := fun e => _ended (List.length_eq_zero_iff.mp e)
  simp only [List.length_drop]; omega

theorem length_xor_sized (data : Octets) (block : Octets.Sized 16) :
    (Octets.xor (data.take 16) block.val).length = (data.take 16).length := by
  simp only [Octets.xor, List.length_zipWith, block.property, List.length_take]; omega

theorem xor_xor_sized (data : Octets) (block : Octets) (h : data.length ≤ block.length) :
    Octets.xor (Octets.xor data block) block = data := by
  induction data generalizing block with
  | nil => rfl
  | cons b data ih =>
    cases block with
    | nil => simp at h
    | cons m block =>
      have := ih block (by simpa using h)
      simp only [Octets.xor, List.zipWith_cons_cons] at this ⊢
      rw [this, UInt8.xor_assoc, UInt8.xor_self, UInt8.xor_zero]

@[simp] theorem mask_nil (stream : Nat → Octets.Sized 16) (i : Nat) : mask stream i [] = [] := by
  rw [mask, dif_pos rfl]

@[simp] theorem length_mask (stream : Nat → Octets.Sized 16) (i : Nat) (data : Octets) :
    (mask stream i data).length = data.length := by
  fun_induction mask stream i data with
  | case1 => simp
  | case2 i data h ih =>
    simp only [List.length_append, ih, length_xor_sized, List.length_take, List.length_drop]; omega

theorem mask_mask (stream : Nat → Octets.Sized 16) (i : Nat) (data : Octets) :
    mask stream i (mask stream i data) = data := by
  fun_induction mask stream i data with
  | case1 => simp
  | case2 i data h ih =>
    have size := length_xor_sized data (stream i)
    have short : (data.take 16).length ≤ (stream i).val.length := by
      rw [(stream i).property, List.length_take]; omega
    have nonempty : data.length ≠ 0 := fun e => h (List.length_eq_zero_iff.mp e)
    rw [mask, dif_neg]
    · by_cases long : 16 ≤ data.length
      · have : (Octets.xor (data.take 16) (stream i).val).length = 16 := by
          rw [size, List.length_take]; omega
        rw [List.take_left' this, List.drop_left' this, ih, xor_xor_sized _ _ short,
          List.take_append_drop]
      · have rest : data.drop 16 = [] := List.drop_eq_nil_of_le (by omega)
        have : (Octets.xor (data.take 16) (stream i).val).length ≤ 16 := by
          rw [size, List.length_take]; omega
        rw [rest, mask_nil, List.append_nil, List.take_of_length_le this,
          List.drop_eq_nil_of_le this, xor_xor_sized _ _ short, mask_nil, List.append_nil,
          List.take_of_length_le (by omega)]
    · intro e
      have := congrArg List.length e
      simp only [List.length_append, size, List.length_take, List.length_nil] at this
      omega

/-- The double of a block in GF(2^128). -/
def doubled (block : Octets) : Octets :=
  let n := Octets.ofBigEndian block * 2
  Octets.bigEndian 16 (if n < 1 <<< 128 then n else n ^^^ 0x87)

/-- A block function whose result is cut or filled to a whole block. -/
def wholeBlock (cipher : Octets → Octets) (block : Octets) : Octets.Sized 16 :=
  Octets.resize 16 (cipher block)

end OpenPGP.Crypto
