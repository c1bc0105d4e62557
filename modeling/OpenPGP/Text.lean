import OpenPGP.Octets
import OpenPGP.Text.Escaped
/-!
# Texts of octets

`Text.lossy` reads octets as UTF-8; every longest start of a character that goes
no further becomes one replacement character. `Text.quoted` puts a text in
quotes, with escapes for what cannot be shown.

Results:
* `length_character_lt`: reading a character takes at least one octet.
-/
namespace OpenPGP.Text

/-- Stands for octets that are no character. -/
def replacement : Char := Char.ofNat 0xFFFD

/-- The rest of a character that needs `count` more octets, the next between `low` and `high`. -/
def continuation : (count : Nat) → (low high : UInt8) → (value : Nat) → Octets → Char × Octets
  | 0, _, _, value, rest => (Char.ofNat value, rest)
  | _ + 1, _, _, _, [] => (replacement, [])
  | count + 1, low, high, value, b :: rest =>
    if low ≤ b ∧ b ≤ high then continuation count 0x80 0xBF (value * 64 + b.toNat % 64) rest
    else (replacement, b :: rest)

/-- The character a first octet begins, and what follows it. -/
def character (b : UInt8) (rest : Octets) : Char × Octets :=
  if b < 0x80 then (Char.ofNat b.toNat, rest)
  else if b < 0xC2 then (replacement, rest)
  else if b < 0xE0 then continuation 1 0x80 0xBF (b.toNat % 32) rest
  else if b = 0xE0 then continuation 2 0xA0 0xBF 0 rest
  else if b = 0xED then continuation 2 0x80 0x9F 13 rest
  else if b < 0xF0 then continuation 2 0x80 0xBF (b.toNat % 16) rest
  else if b = 0xF0 then continuation 3 0x90 0xBF 0 rest
  else if b < 0xF4 then continuation 3 0x80 0xBF (b.toNat % 8) rest
  else if b = 0xF4 then continuation 3 0x80 0x8F 4 rest
  else (replacement, rest)

theorem length_continuation_le (count : Nat) (low high : UInt8) (value : Nat) (octets : Octets) :
    (continuation count low high value octets).2.length ≤ octets.length := by
  fun_induction continuation count low high value octets with
  | case1 => simp
  | case2 => simp
  | case3 count low high value b rest h ih => simp only [List.length_cons]; omega
  | case4 => simp

theorem length_character_lt (b : UInt8) (rest : Octets) :
    (character b rest).2.length < (b :: rest).length := by
  simp only [character, List.length_cons, Nat.lt_succ_iff]
  repeat' split
  all_goals first | exact Nat.le_refl _ | exact length_continuation_le ..

/-- The characters of octets. -/
def characters : Octets → List Char
  | [] => []
  | b :: rest =>
    let next := character b rest
    next.1 :: characters next.2
termination_by octets => octets.length
decreasing_by exact length_character_lt b rest

def lossy (octets : Octets) : String := String.ofList (characters octets)

/-! ## Quotes -/

private def lowerHex (n : Nat) : List Char := Nat.toDigits 16 n

/-- A character between quotes. -/
def escape (c : Char) : List Char :=
  match c with
  | '"' => ['\\', '"']
  | '\\' => ['\\', '\\']
  | '\n' => ['\\', 'n']
  | '\r' => ['\\', 'r']
  | '\t' => ['\\', 't']
  | c =>
    if c.toNat = 0 then ['\\', '0']
    else if isEscaped c then ['\\', 'u', '\x7b'] ++ lowerHex c.toNat ++ ['\x7d']
    else [c]

/-- A text in quotes. -/
def quoted (text : String) : String := String.ofList ('"' :: text.toList.flatMap escape ++ ['"'])

end OpenPGP.Text
