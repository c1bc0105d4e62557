import OpenPGP.Crypto.KeyWrap
import OpenPGP.Proofs.Opening
import OpenPGP.Proofs.Sealing
/-!
# Undoing a block cipher

Decrypting a block with an expanded key undoes encrypting it, one round after
the other. The only step of a round that is not undone by its definition is the
mixing of columns: doubling is linear over exclusive or, so unmixing a mixed
column is a sum of doubles of its four octets, in which everything but one octet
stands twice. Wrapping a key is undone pass by pass in the same way.

Results:
* `Aes.unmixColumn_mixColumn`: mixing columns is undone.
* `Aes.Key.decrypt_encrypt`: a whole block is decrypted to what it was.
* `KeyWrap.unwrap?_wrap?`: what was wrapped is unwrapped.
-/
namespace OpenPGP

open Crypto

namespace Crypto.Aes

/-! ## Columns -/

/-- Doubling as a sum: the shifted octet, and the reduction if the highest bit was set. -/
theorem double_eq (b : UInt8) : double b = (b <<< 1) ^^^ (if b >>> 7 = 0 then 0 else 0x1B) := by
  have all : ∀ n : Fin 256, double (UInt8.ofNat n) =
      (UInt8.ofNat n <<< 1) ^^^ (if UInt8.ofNat n >>> 7 = 0 then 0 else 0x1B) := by decide +kernel
  simpa using all ⟨b.toNat, b.toNat_lt⟩

theorem highBit_cases (b : UInt8) : b >>> 7 = 0 ∨ b >>> 7 = 1 := by
  have all : ∀ n : Fin 256, UInt8.ofNat n >>> 7 = 0 ∨ UInt8.ofNat n >>> 7 = 1 := by decide +kernel
  simpa using all ⟨b.toNat, b.toNat_lt⟩

theorem double_xor (a b : UInt8) : double (a ^^^ b) = double a ^^^ double b := by
  have hreduced : (if (a ^^^ b) >>> 7 = 0 then 0 else 0x1B : UInt8) =
      (if a >>> 7 = 0 then 0 else 0x1B) ^^^ (if b >>> 7 = 0 then 0 else 0x1B) := by
    rw [UInt8.shiftRight_xor]
    rcases highBit_cases a with ha | ha <;> rcases highBit_cases b with hb | hb <;>
      simp only [ha, hb] <;> decide
  simp only [double_eq, UInt8.shiftLeft_xor, hreduced]
  ac_rfl

theorem xor_xor_cancel_left (a b : UInt8) : a ^^^ (a ^^^ b) = b := by
  rw [← UInt8.xor_assoc, UInt8.xor_self, UInt8.zero_xor]

theorem unmixColumn_mixColumn (k : Column) : unmixColumn (mixColumn k) = k := by
  obtain ⟨a, b, c, d⟩ := k
  have left_comm (x y z : UInt8) : x ^^^ (y ^^^ z) = y ^^^ (x ^^^ z) := by ac_rfl
  simp only [unmixColumn, mixColumn, double_xor, Column.mk.injEq]
  -- every double stands twice, and so does every octet but one
  generalize double (double (double a)) = a₃, double (double (double b)) = b₃,
    double (double (double c)) = c₃, double (double (double d)) = d₃
  generalize double (double a) = a₂, double (double b) = b₂, double (double c) = c₂,
    double (double d) = d₂
  generalize double a = a₁, double b = b₁, double c = c₁, double d = d₁
  refine ⟨?_, ?_, ?_, ?_⟩ <;>
    simp only [UInt8.xor_assoc, UInt8.xor_comm, left_comm, xor_xor_cancel_left, UInt8.xor_self,
      UInt8.xor_zero]

/-! ## Rounds -/

namespace Block

theorem map_map_cancel {f g : Column → Column} (h : ∀ k, g (f k) = k) (s : Block) :
    (s.map f).map g = s := by
  simp [map, h]

theorem xor_xor_cancel_right (s t : Block) : (s.xor t).xor t = s := by
  simp only [xor, Column.xor, UInt8.xor_assoc, UInt8.xor_self, UInt8.xor_zero]

theorem octets_ofOctets {block : Octets} (h : block.length = 16) : (ofOctets block).octets = block := by
  match block, h with
  | [_, _, _, _, _, _, _, _, _, _, _, _, _, _, _, _], _ => rfl

end Block

theorem restore_substitute_column (k : Column) : (k.map substitute).map restore = k := by
  simp [Column.map, restore_substitute]

theorem undoMiddleRound_middleRound (s key : Block) : undoMiddleRound (middleRound s key) key = s := by
  rw [undoMiddleRound, middleRound, Block.xor_xor_cancel_right,
    Block.map_map_cancel unmixColumn_mixColumn, unshiftRows_shiftRows,
    Block.map_map_cancel restore_substitute_column]

/-- The middle rounds are undone last key first. -/
theorem undo_middleRounds (keys : List Block) (s : Block) :
    keys.foldr (fun key s => undoMiddleRound s key) (keys.foldl middleRound s) = s := by
  induction keys generalizing s with
  | nil => rfl
  | cons key keys ih => rw [List.foldl_cons, List.foldr_cons, ih, undoMiddleRound_middleRound]

namespace Key

theorem decryptBlock_encryptBlock (k : Key) (s : Block) : k.decryptBlock (k.encryptBlock s) = s := by
  simp only [decryptBlock, encryptBlock, Block.xor_xor_cancel_right, unshiftRows_shiftRows,
    Block.map_map_cancel restore_substitute_column, undo_middleRounds]

theorem decrypt_encrypt (k : Key) {block : Octets} (h : block.length = 16) :
    k.decrypt (k.encrypt block) = block := by
  rw [decrypt, encrypt, Block.ofOctets_octets, decryptBlock_encryptBlock, Block.octets_ofOctets h]

end Key

end Crypto.Aes

/-! ## Pieces -/

namespace Octets

theorem xor_comm (a b : Octets) : xor a b = xor b a :=
  List.zipWith_comm_of_comm UInt8.xor_comm

theorem xor_xor_cancel_left {mask data : Octets} (h : data.length ≤ mask.length) :
    xor mask (xor mask data) = data := by
  rw [xor_comm mask data, xor_comm mask, xor_xor_sized _ _ h]

theorem pieces_nil (size : Nat) : pieces size [] = [] := by
  rw [pieces, dif_pos (.inr rfl)]

theorem pieces_append {size : Nat} {first : Octets} (hs : 0 < size) (h : first.length = size)
    (rest : Octets) : pieces size (first ++ rest) = first :: pieces size rest := by
  have hne : ¬ (size = 0 ∨ first ++ rest = []) := by
    rintro (h0 | hnil)
    · omega
    · simp only [List.append_eq_nil_iff] at hnil
      rw [hnil.1] at h
      simp only [List.length_nil] at h
      omega
  rw [pieces, dif_neg hne, ← h, List.take_left, List.drop_left]

theorem pieces_of_le {size : Nat} {octets : Octets} (hne : octets ≠ []) (h : octets.length ≤ size) :
    pieces size octets = [octets] := by
  have hpos := List.length_pos_iff.mpr hne
  have hcut : ¬ (size = 0 ∨ octets = []) := by
    rintro (h0 | h0)
    · omega
    · exact hne h0
  rw [pieces, dif_neg hcut, List.take_of_length_le h, List.drop_of_length_le h, pieces_nil]

theorem length_pieces {size : Nat} (h : 0 < size) (octets : Octets) :
    (pieces size octets).length = (octets.length + size - 1) / size := by
  fun_induction pieces size octets with
  | case1 octets ended =>
    obtain rfl : octets = [] := ended.resolve_left (by omega)
    exact (Nat.div_eq_of_lt (by rw [List.length_nil]; omega)).symm
  | case2 octets ended ih =>
    have hpos : 0 < octets.length := List.length_pos_iff.mpr fun e => ended (.inr e)
    rw [List.length_cons, ih, List.length_drop]
    by_cases hlong : size ≤ octets.length
    · rw [show octets.length + size - 1 = (octets.length - size + size - 1) + size by omega,
        Nat.add_div_right _ h]
    · rw [show octets.length - size = 0 by omega, Nat.zero_add, Nat.div_eq_of_lt (by omega),
        show octets.length + size - 1 = (octets.length - 1) + size by omega, Nat.add_div_right _ h,
        Nat.div_eq_of_lt (by omega)]

/-- Whole pieces are the pieces of their sum. -/
theorem pieces_flatten {size : Nat} (hs : 0 < size) {whole : List Octets}
    (h : ∀ piece ∈ whole, piece.length = size) : pieces size whole.flatten = whole := by
  induction whole with
  | nil => exact pieces_nil size
  | cons piece whole ih =>
    rw [List.flatten_cons, pieces_append hs (h piece List.mem_cons_self),
      ih fun p hp => h p (List.mem_cons_of_mem _ hp)]

theorem length_le_of_mem_pieces {size : Nat} {octets piece : Octets} (hp : piece ∈ pieces size octets) :
    piece.length ≤ size := by
  fun_induction pieces size octets with
  | case1 => cases hp
  | case2 octets hne ih =>
    rcases List.mem_cons.mp hp with rfl | hp
    · exact List.length_take_le size octets
    · exact ih hp

theorem length_of_mem_pieces {size : Nat} {octets piece : Octets} (h : octets.length % size = 0)
    (hp : piece ∈ pieces size octets) : piece.length = size := by
  fun_induction pieces size octets with
  | case1 => cases hp
  | case2 octets hne ih =>
    have hpos : 0 < octets.length := List.length_pos_iff.mpr fun e => hne (.inr e)
    have hle : size ≤ octets.length := Nat.le_of_dvd hpos (Nat.dvd_of_mod_eq_zero h)
    rcases List.mem_cons.mp hp with rfl | hp
    · rw [List.length_take, Nat.min_eq_left hle]
    · refine ih ?_ hp
      rw [List.length_drop, Nat.mod_eq_zero_of_dvd]
      exact Nat.dvd_sub (Nat.dvd_of_mod_eq_zero h) (Nat.dvd_refl size)

end Octets

/-! ## Key wrapping -/

namespace Crypto.KeyWrap

/-- A check value and halves of eight octets each. -/
def Halves (state : Octets × List Octets) : Prop :=
  state.1.length = 8 ∧ ∀ half ∈ state.2, half.length = 8

theorem length_wrapPass (key : Aes.Key) (t : Nat) (value : Octets) (halves : List Octets) :
    (wrapPass key t value halves).2.length = halves.length := by
  induction halves generalizing t value with
  | nil => rfl
  | cons half rest ih => rw [wrapPass, List.length_cons, List.length_cons, ih]

theorem length_unwrapPass (key : Aes.Key) (t : Nat) (value : Octets) (halves : List Octets) :
    (unwrapPass key t value halves).2.length = halves.length := by
  induction halves generalizing t value with
  | nil => rfl
  | cons half rest ih => rw [unwrapPass, List.length_cons, List.length_cons, ih]

theorem unwrapPass_wrapPass (key : Aes.Key) (t : Nat) {value : Octets} {halves : List Octets}
    (h : Halves (value, halves)) : Halves (wrapPass key t value halves) ∧
      unwrapPass key t (wrapPass key t value halves).1 (wrapPass key t value halves).2 =
        (value, halves) := by
  induction halves generalizing t value with
  | nil => exact ⟨h, rfl⟩
  | cons half rest ih =>
    obtain ⟨hvalue, hhalves⟩ := h
    have hhalf : half.length = 8 := hhalves half List.mem_cons_self
    have hblock : (key.encrypt (value ++ half)).length = 16 := Aes.length_encrypt key _
    have htake : ((key.encrypt (value ++ half)).take 8).length = 8 := by rw [List.length_take, hblock]; rfl
    have hnumber : ((key.encrypt (value ++ half)).take 8).length ≤ (Octets.bigEndian 8 t).length :=
      Nat.le_of_eq (htake.trans (Octets.length_bigEndian 8 t).symm)
    have hnext : Halves (Octets.xor ((key.encrypt (value ++ half)).take 8) (Octets.bigEndian 8 t), rest) :=
      ⟨(Octets.length_xor_of_le hnumber).trans htake, fun x hx => hhalves x (List.mem_cons_of_mem _ hx)⟩
    obtain ⟨⟨hv, hr⟩, hundo⟩ := ih (t + 1) hnext
    simp only [wrapPass]
    refine ⟨⟨hv, fun x hx => ?_⟩, ?_⟩
    · rcases List.mem_cons.mp hx with rfl | hx
      · rw [List.length_drop, hblock]
      · exact hr x hx
    · simp only [unwrapPass, hundo]
      rw [xor_xor_sized _ _ hnumber, List.take_append_drop,
        Aes.Key.decrypt_encrypt key (by rw [List.length_append, hvalue, hhalf]), List.take_left' hvalue,
        List.drop_left' hvalue]

/-- Passes by the numbers of their first steps, which the number of halves and of the pass give. -/
theorem foldl_passes {pass : Nat → Octets → List Octets → Octets × List Octets}
    (h : ∀ t value halves, (pass t value halves).2.length = halves.length) (number : Nat → Nat → Nat)
    (passes : List Nat) (state : Octets × List Octets) :
    passes.foldl (fun (value, halves) i => pass (number halves.length i) value halves) state =
      (passes.map (number state.2.length)).foldl (fun s t => pass t s.1 s.2) state := by
  induction passes generalizing state with
  | nil => rfl
  | cons i passes ih => rw [List.foldl_cons, ih, List.map_cons, List.foldl_cons, h]

theorem unwrapPasses_wrapPasses (key : Aes.Key) (numbers : List Nat) {state : Octets × List Octets}
    (h : Halves state) :
    let wrapped := numbers.foldl (fun s t => wrapPass key t s.1 s.2) state
    Halves wrapped ∧ wrapped.2.length = state.2.length ∧
      numbers.reverse.foldl (fun s t => unwrapPass key t s.1 s.2) wrapped = state := by
  induction numbers generalizing state with
  | nil => exact ⟨h, rfl, rfl⟩
  | cons t numbers ih =>
    obtain ⟨hpass, hundo⟩ := unwrapPass_wrapPass key t h
    obtain ⟨hall, hlength, hundo'⟩ := ih hpass
    refine ⟨hall, hlength.trans (length_wrapPass key t _ _), ?_⟩
    rw [List.reverse_cons, List.foldl_append, List.foldl_cons, List.foldl_cons, hundo', List.foldl_nil,
      hundo]

/-- Halves that were wrapped are all that is behind the check value. -/
theorem length_flatten_halves {halves : List Octets} (h : ∀ half ∈ halves, half.length = 8) :
    halves.flatten.length = 8 * halves.length := by
  induction halves with
  | nil => rfl
  | cons half halves ih =>
    rw [List.flatten_cons, List.length_append, h half List.mem_cons_self,
      ih fun x hx => h x (List.mem_cons_of_mem _ hx), List.length_cons]
    omega

/-- **What was wrapped is unwrapped**, and any whole number of halves can be. -/
theorem unwrap?_wrap? (key : Aes.Key) {data : Octets} (h : data.length % 8 = 0) :
    ∃ wrapped, wrap? key data = some wrapped ∧ unwrap? key wrapped = some data ∧
      wrapped.length = data.length + 8 := by
  have hhalves : ∀ half ∈ Octets.pieces 8 data, half.length = 8 := fun half hm =>
    Octets.length_of_mem_pieces h hm
  have hlength : data.length = 8 * (Octets.pieces 8 data).length := by
    rw [← length_flatten_halves hhalves, Octets.flatten_pieces (by decide)]
  have hstart : Halves (check, Octets.pieces 8 data) := ⟨rfl, hhalves⟩
  obtain ⟨⟨hvalue, hwrapped⟩, hcount, hundo⟩ := unwrapPasses_wrapPasses key
    ((List.range 6).map fun i => (Octets.pieces 8 data).length * i + 1) hstart
  have hpasses := foldl_passes (length_wrapPass key) (fun n i => n * i + 1) (List.range 6)
    (check, Octets.pieces 8 data)
  have hback := foldl_passes (length_unwrapPass key) (fun n i => n * (5 - i) + 1) (List.range 6)
  generalize ((List.range 6).map fun i => (Octets.pieces 8 data).length * i + 1).foldl
    (fun s t => wrapPass key t s.1 s.2) (check, Octets.pieces 8 data) = wrapped at *
  obtain ⟨value, halves⟩ := wrapped
  have hcount : halves.length = (Octets.pieces 8 data).length := hcount
  have hvalue : value.length = 8 := hvalue
  have hsize : (value ++ halves.flatten).length = data.length + 8 := by
    rw [List.length_append, length_flatten_halves hwrapped, hcount, hlength, hvalue]
    omega
  refine ⟨value ++ halves.flatten, ?_, ?_, hsize⟩
  · rw [wrap?, if_neg (Decidable.not_not.mpr h)]
    simp only [hpasses]
  · rw [unwrap?, hsize, if_neg (by omega), List.take_left' hvalue, List.drop_left' hvalue,
      Octets.pieces_flatten (by decide) hwrapped]
    -- the passes come in the reverse order
    have hnumbers : (List.range 6).map (fun i => halves.length * (5 - i) + 1) =
        ((List.range 6).map fun i => (Octets.pieces 8 data).length * i + 1).reverse := by
      rw [hcount]
      rfl
    have hdata : (Octets.pieces 8 data).flatten = data := Octets.flatten_pieces (by decide) data
    simp only [hback (value, halves), hnumbers, hundo, if_true, hdata]

end Crypto.KeyWrap

end OpenPGP
