import Mathlib.Tactic.IntervalCases
import OpenPGP.Text
/-!
# Texts read back

The octets of a text are the characters of it one after the other, each in one to
four octets, and reading them gives the text: of what they begin nothing is
replaced.

Results:
* `Text.character_utf8EncodeChar`: the octets of a character are read as that character.
* `Text.lossy_ofText`: the octets of a text are read as that text.
-/
namespace OpenPGP

theorem Octets.ofText_eq (text : String) : ofText text = text.toList.flatMap String.utf8EncodeChar := by
  have hloop (bytes : ByteArray) (i : Nat) (front : List UInt8) :
      ByteArray.toList.loop bytes i front = front.reverse ++ bytes.data.toList.drop i := by
    fun_induction ByteArray.toList.loop bytes i front with
    | case1 i front h ih =>
      have hi : i < bytes.data.toList.length := h
      have hget : bytes.get! i = bytes.data.toList[i] := by
        rw [Array.getElem_toList]
        exact getElem!_pos bytes.data i h
      rw [ih, List.reverse_cons, List.append_assoc, List.drop_eq_getElem_cons hi, hget]
      rfl
    | case2 i front h =>
      have hi : bytes.data.toList.length ≤ i := Nat.le_of_not_lt h
      rw [List.drop_of_length_le hi, List.append_nil]
  have hbytes : text.toUTF8 = (text.toList.flatMap String.utf8EncodeChar).toByteArray :=
    String.utf8Encode_toList.symm
  rw [ofText, hbytes, ByteArray.toList, hloop, List.toList_data_toByteArray]
  rfl

namespace Text

theorem continuation_succ {low high : UInt8} {x : Nat} (hl : low.toNat ≤ x % 64 + 128)
    (hh : x % 64 + 128 ≤ high.toNat) (count value : Nat) (rest : Octets) :
    continuation (count + 1) low high value (UInt8.ofNat (x % 64 + 128) :: rest) =
      continuation count 0x80 0xBF (value * 64 + x % 64) rest := by
  have hb : (UInt8.ofNat (x % 64 + 128)).toNat = x % 64 + 128 := by
    rw [UInt8.toNat_ofNat']
    omega
  have hbounds : low ≤ UInt8.ofNat (x % 64 + 128) ∧ UInt8.ofNat (x % 64 + 128) ≤ high := by
    rw [UInt8.le_iff_toNat_le, UInt8.le_iff_toNat_le, hb]
    exact ⟨hl, hh⟩
  rw [continuation, if_pos hbounds, hb]
  congr 1
  omega

theorem continuation_succ_of_widest (x count value : Nat) (rest : Octets) :
    continuation (count + 1) 0x80 0xBF value (UInt8.ofNat (x % 64 + 128) :: rest) =
      continuation count 0x80 0xBF (value * 64 + x % 64) rest :=
  continuation_succ (show 128 ≤ x % 64 + 128 by omega) (show x % 64 + 128 ≤ 191 by omega) _ _ _

/-! The first octet tells how many octets there are and what the second may be. -/

theorem character_of_lt_128 {b : UInt8} (h : b.toNat < 128) (rest : Octets) :
    character b rest = (Char.ofNat b.toNat, rest) :=
  if_pos (UInt8.lt_iff_toNat_lt.mpr h)

theorem character_of_lt_224 {b : UInt8} (hl : 194 ≤ b.toNat) (hu : b.toNat < 224) (rest : Octets) :
    character b rest = continuation 1 0x80 0xBF (b.toNat % 32) rest := by
  have h1 : ¬b < 0x80 := UInt8.not_lt.mpr (UInt8.le_iff_toNat_le.mpr (by simpa using by omega))
  have h2 : ¬b < 0xC2 := UInt8.not_lt.mpr (UInt8.le_iff_toNat_le.mpr hl)
  have h3 : b < 0xE0 := UInt8.lt_iff_toNat_lt.mpr hu
  rw [character, if_neg h1, if_neg h2, if_pos h3]

theorem character_of_lt_240 {b : UInt8} (hl : 224 ≤ b.toNat) (hu : b.toNat < 240) (rest : Octets) :
    character b rest = continuation 2 (if b.toNat = 224 then 0xA0 else 0x80)
      (if b.toNat = 237 then 0x9F else 0xBF) (b.toNat % 16) rest := by
  have hb : b = UInt8.ofNat b.toNat := UInt8.ofNat_toNat.symm
  generalize b.toNat = n at *
  subst hb
  interval_cases n <;> rfl

theorem character_of_le_244 {b : UInt8} (hl : 240 ≤ b.toNat) (hu : b.toNat ≤ 244) (rest : Octets) :
    character b rest = continuation 3 (if b.toNat = 240 then 0x90 else 0x80)
      (if b.toNat = 244 then 0x8F else 0xBF) (b.toNat % 8) rest := by
  have hb : b = UInt8.ofNat b.toNat := UInt8.ofNat_toNat.symm
  generalize b.toNat = n at *
  subst hb
  interval_cases n <;> rfl

theorem character_utf8EncodeChar (c : Char) (rest : Octets) : ∃ b octets,
    String.utf8EncodeChar c = b :: octets ∧ character b (octets ++ rest) = (c, rest) := by
  have hvalid : c.val.toNat < 0xD800 ∨ 0xDFFF < c.val.toNat ∧ c.val.toNat < 0x110000 := c.valid
  have hchar : Char.ofNat c.val.toNat = c := Char.ofNat_toNat c
  unfold String.utf8EncodeChar
  generalize c.val.toNat = v at *
  have hfirst {n : Nat} (h : n < 256) : (UInt8.ofNat n).toNat = n := UInt8.toNat_ofNat_of_lt' h
  dsimp only
  by_cases h1 : v ≤ 127
  · have hb := hfirst (show v < 256 by omega)
    refine ⟨_, [], if_pos h1, ?_⟩
    rw [character_of_lt_128 (by omega), hb, hchar]
    rfl
  rw [if_neg h1]
  by_cases h2 : v ≤ 2047
  · have hb := hfirst (show v / 64 % 32 + 192 < 256 by omega)
    refine ⟨_, _, if_pos h2, ?_⟩
    rw [character_of_lt_224 (by omega) (by omega), hb, List.cons_append, continuation_succ_of_widest,
      continuation, show (v / 64 % 32 + 192) % 32 * 64 + v % 64 = v by omega, hchar]
    rfl
  rw [if_neg h2]
  by_cases h3 : v ≤ 65535
  · have hb := hfirst (show v / 4096 % 16 + 224 < 256 by omega)
    refine ⟨_, _, if_pos h3, ?_⟩
    rw [character_of_lt_240 (by omega) (by omega), hb, List.cons_append, List.cons_append,
      continuation_succ, continuation_succ_of_widest, continuation,
      show ((v / 4096 % 16 + 224) % 16 * 64 + v / 64 % 64) * 64 + v % 64 = v by omega, hchar]
    · rfl
    · split
      · show 160 ≤ _
        omega
      · show 128 ≤ _
        omega
    · split
      · show _ ≤ 159
        omega
      · show _ ≤ 191
        omega
  · have hb := hfirst (show v / 262144 % 8 + 240 < 256 by omega)
    refine ⟨_, _, if_neg h3, ?_⟩
    rw [character_of_le_244 (by omega) (by omega), hb, List.cons_append, List.cons_append, List.cons_append,
      continuation_succ, continuation_succ_of_widest, continuation_succ_of_widest, continuation,
      show (((v / 262144 % 8 + 240) % 8 * 64 + v / 4096 % 64) * 64 + v / 64 % 64) * 64 + v % 64 = v by omega,
      hchar]
    · rfl
    · split
      · show 144 ≤ _
        omega
      · show 128 ≤ _
        omega
    · split
      · show _ ≤ 143
        omega
      · show _ ≤ 191
        omega

/-- **Nothing of a text is lost.** -/
theorem lossy_ofText (text : String) : lossy (Octets.ofText text) = text := by
  have hall (cs : List Char) : characters (cs.flatMap String.utf8EncodeChar) = cs := by
    induction cs with
    | nil => rw [List.flatMap_nil, characters]
    | cons c cs ih =>
      obtain ⟨b, octets, hb, hc⟩ := character_utf8EncodeChar c (cs.flatMap String.utf8EncodeChar)
      rw [List.flatMap_cons, hb, List.cons_append, characters]
      simp only [hc, ih]
  rw [lossy, Octets.ofText_eq, hall, String.ofList_toList]

end Text

end OpenPGP
