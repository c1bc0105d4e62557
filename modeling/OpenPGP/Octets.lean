/-!
# Octet strings

Everything a message holds is a string of octets. This module fixes the type,
numbers written into octets (most or least significant octet first), strings of
a fixed size, exclusive or, cutting into pieces, and the upper-case hexadecimal
form key identifiers are shown in.

Results:
* `length_littleEndian`, `length_bigEndian`: a number takes exactly the width asked for.
* `ofLittleEndian_littleEndian`: reading undoes writing up to the modulus of the width.
* `flatten_pieces`: the pieces of a string make it up.
-/
namespace OpenPGP

/-- A string of octets, first octet first. -/
abbrev Octets := List UInt8

namespace Octets

/-- A string of exactly `n` octets. -/
abbrev Sized (n : Nat) := { octets : Octets // octets.length = n }

/-- The string of `n` zero octets. -/
def Sized.zero (n : Nat) : Sized n := ⟨List.replicate n 0, List.length_replicate⟩

/-- The `n` octets of `octets` if it has exactly that many. -/
def sized? (n : Nat) (octets : Octets) : Option (Sized n) :=
  if h : octets.length = n then some ⟨octets, h⟩ else none

/-- The first `n` octets, filled up with zeros when there are fewer. -/
def resize (n : Nat) (octets : Octets) : Sized n :=
  ⟨octets.take n ++ List.replicate (n - octets.length) 0, by
    simp only [List.length_append, List.length_take, List.length_replicate]; omega⟩

/-! ## Numbers -/

/-- `n` in `width` octets, least significant first; higher octets are dropped. -/
def littleEndian : (width n : Nat) → Octets
  | 0, _ => []
  | width + 1, n => UInt8.ofNat n :: littleEndian width (n / 256)

/-- `n` in `width` octets, most significant first; higher octets are dropped. -/
def bigEndian (width n : Nat) : Octets := (littleEndian width n).reverse

/-- The number whose octets stand least significant first. -/
def ofLittleEndian : Octets → Nat
  | [] => 0
  | b :: rest => b.toNat + 256 * ofLittleEndian rest

/-- The number whose octets stand most significant first. -/
def ofBigEndian (octets : Octets) : Nat := octets.foldl (fun n b => n * 256 + b.toNat) 0

@[simp] theorem length_littleEndian (width n : Nat) : (littleEndian width n).length = width := by
  induction width generalizing n with
  | zero => rfl
  | succ width ih => simp [littleEndian, ih]

@[simp] theorem length_bigEndian (width n : Nat) : (bigEndian width n).length = width := by
  simp [bigEndian]

theorem ofLittleEndian_littleEndian (width n : Nat) :
    ofLittleEndian (littleEndian width n) = n % Nat.pow 256 width := by
  induction width generalizing n with
  | zero => simp [littleEndian, ofLittleEndian, Nat.mod_one]
  | succ width ih =>
    simp only [littleEndian, ofLittleEndian, ih, UInt8.toNat_ofNat']
    rw [show Nat.pow 256 (width + 1) = 256 * Nat.pow 256 width from Nat.mul_comm _ _, Nat.mod_mul]

/-- A number of at most `width` octets as a string of that size. -/
def Sized.ofNat (width n : Nat) : Sized width := ⟨littleEndian width n, length_littleEndian width n⟩

/-! ## Strings -/

/-- Octet by octet exclusive or, as long as the shorter operand. -/
def xor (a b : Octets) : Octets := List.zipWith (· ^^^ ·) a b

/-- `octets` cut every `size` octets; the last piece may be shorter. -/
def pieces (size : Nat) (octets : Octets) : List Octets :=
  if _ended : size = 0 ∨ octets = [] then [] else
    octets.take size :: pieces size (octets.drop size)
termination_by octets.length
decreasing_by
  have : octets.length ≠ 0 := fun e => _ended (Or.inr (List.length_eq_zero_iff.mp e))
  simp only [List.length_drop]; omega

theorem flatten_pieces {size : Nat} (h : 0 < size) (octets : Octets) :
    (pieces size octets).flatten = octets := by
  fun_induction pieces size octets with
  | case1 octets ended =>
    rcases ended with rfl | rfl
    · exact absurd h (Nat.lt_irrefl 0)
    · rfl
  | case2 octets ended ih => rw [List.flatten_cons, ih, List.take_append_drop]

theorem length_pieces_le (size : Nat) (octets : Octets) :
    (pieces size octets).length ≤ octets.length := by
  fun_induction pieces size octets with
  | case1 => exact Nat.zero_le _
  | case2 octets hne ih =>
    have hpos : 0 < octets.length := List.length_pos_iff.mpr fun e => hne (.inr e)
    rw [List.length_drop] at ih
    rw [List.length_cons]
    omega

/-- The octets of a text in UTF-8. -/
def ofText (text : String) : Octets := text.toUTF8.toList

/-! ## Hexadecimal -/

private def hexDigit (n : Nat) : Char :=
  if n < 10 then Char.ofNat (48 + n) else Char.ofNat (55 + n)

/-- Two upper-case hexadecimal digits per octet. -/
def hexUpper (octets : Octets) : String :=
  String.ofList (octets.flatMap fun b => [hexDigit (b.toNat / 16), hexDigit (b.toNat % 16)])

end Octets

end OpenPGP
