import OpenPGP.Compression.Code
/-!
# Deflated data

Deflated data is a sequence of blocks, the last of them marked. A block holds
octets as they are, or symbols of two codes, fixed or given in front of the
block: octets, and copies of what came before by length and distance. Distances
reach back at most 32768 octets; what lies before the first octet reads as zero.

`inflate` expands deflated data into a space: it stops where the next octet
would not fit, before it looks at anything behind. `deflateStored` writes blocks
of octets as they are.
-/
namespace OpenPGP.Compression

/-- Why expanding stopped before the end of the data. -/
inductive Stop where
  | defect (defect : CompressionDefect)
  /-- The next octet does not fit. -/
  | full
  deriving DecidableEq, Repr

/-- What is left to read and what was written. -/
structure Inflater where
  input : Bits
  output : Array UInt8
  /-- How many octets were written before the piece of input at hand was begun. -/
  delivered : Nat

/-- Before anything was read of a string. -/
def Inflater.ofOctets (pieceSize : Nat) (octets : Octets) : Inflater :=
  ⟨.ofOctets pieceSize octets, #[], 0⟩

/-- Reads bits and writes octets; a stop leaves both where they are. -/
abbrev Inflating (α : Type) := EStateM Stop Inflater α

namespace Inflating

def corrupt {α : Type} : Inflating α := throw (.defect .corrupt)
def incomplete {α : Type} : Inflating α := throw (.defect .incomplete)

theorem bind_of_ok {α β : Type} {x : Inflating α} {f : α → Inflating β} {s s' : Inflater} {a : α}
    (h : x s = .ok a s') : (x >>= f) s = f a s' := by
  change EStateM.bind x f s = _
  rw [EStateM.bind, h]

theorem bind_of_error {α β : Type} {x : Inflating α} {f : α → Inflating β} {s s' : Inflater} {stop : Stop}
    (h : x s = .error stop s') : (x >>= f) s = .error stop s' := by
  change EStateM.bind x f s = _
  rw [EStateM.bind, h]

/-- The next bit. Another piece of the input is begun only when it is needed. -/
def bit : Inflating Bool := fun s =>
  match s.input.next? with
  | some (b, input) => .ok b { s with input }
  | none =>
    match s.input.nextPiece?.bind Bits.next? with
    | some (b, input) => .ok b { s with input, delivered := s.output.size }
    | none => .error (.defect .incomplete) s

/-- A number of `width` bits, least significant first. -/
def number : (width : Nat) → Inflating Nat
  | 0 => return 0
  | width + 1 => do
    let b ← bit
    return b.toNat + 2 * (← number width)

/-- Goes to the next whole octet. -/
def align : Inflating Unit := fun s => .ok () { s with input := s.input.aligned }

/-- How many bits are left. -/
def bitsLeft : Inflating Nat := fun s => .ok s.input.count s

/-- Writes an octet into a space. -/
def put (space : Nat) (b : UInt8) : Inflating Unit := fun s =>
  if s.output.size < space then .ok () { s with output := s.output.push b } else .error .full s

/-- Writes `length` octets, each of them the one that stands `distance` octets before it. -/
def copy (space distance : Nat) : (length : Nat) → Inflating Unit
  | 0 => return
  | length + 1 => do
    let size := (← get).output.size
    let b ← if distance ≤ size then do pure ((← get).output.getD (size - distance) 0) else pure 0
    put space b
    copy space distance length

/-- Writes the next `length` octets of the input, which is at a whole octet. -/
def stored (space : Nat) : (length : Nat) → Inflating Unit
  | 0 => return
  | length + 1 => do
    put space (← number 8).toUInt8
    stored space length

/-- Follows the tree of a code to a symbol, if one has the code that is read. -/
def follow : Code → Inflating (Option Nat)
  | .unused => return none
  | .symbol value => return some value
  | .branch zero one => do if ← bit then follow one else follow zero

/-- The next symbol of a code. The first bit that leads to no code is a defect. -/
def symbol (code : Code) : Inflating Nat := do
  match ← follow code with
  | some value => return value
  | none => corrupt

end Inflating

/-! ## Copies -/

/-- The least lengths of the symbols from 257 on and how many bits are added to them. -/
def lengthSymbols : List (Nat × Nat) :=
  [(3, 0), (4, 0), (5, 0), (6, 0), (7, 0), (8, 0), (9, 0), (10, 0), (11, 1), (13, 1), (15, 1), (17, 1),
   (19, 2), (23, 2), (27, 2), (31, 2), (35, 3), (43, 3), (51, 3), (59, 3), (67, 4), (83, 4), (99, 4),
   (115, 4), (131, 5), (163, 5), (195, 5), (227, 5), (258, 0)]

/-- The least distances of the distance symbols and how many bits are added to them. -/
def distanceSymbols : List (Nat × Nat) :=
  [(1, 0), (2, 0), (3, 0), (4, 0), (5, 1), (7, 1), (9, 2), (13, 2), (17, 3), (25, 3), (33, 4), (49, 4),
   (65, 5), (97, 5), (129, 6), (193, 6), (257, 7), (385, 7), (513, 8), (769, 8), (1025, 9), (1537, 9),
   (2049, 10), (3073, 10), (4097, 11), (6145, 11), (8193, 12), (12289, 12), (16385, 13), (24577, 13)]

namespace Inflating

/-- The value of a symbol of a table. -/
def valueOf (table : List (Nat × Nat)) (symbol : Nat) : Inflating Nat := do
  match table[symbol]? with
  | some (least, width) => return least + (← number width)
  | none => corrupt

/-- The symbols of a block up to its end. Every symbol takes a bit, so `fuel` may be the number of
bits left. -/
def symbols (space : Nat) (literals distances : Code) : (fuel : Nat) → Inflating Unit
  | 0 => incomplete
  | fuel + 1 => do
    let s ← symbol literals
    if s < 256 then
      put space s.toUInt8
      symbols space literals distances fuel
    else if s = 256 then return
    else
      let length ← valueOf lengthSymbols (s - 257)
      let distance ← valueOf distanceSymbols (← symbol distances)
      copy space distance length
      symbols space literals distances fuel

end Inflating

/-! ## Blocks -/

/-- The code for octets and lengths of blocks that give none. -/
def fixedLiterals : Code :=
  .ofLengths (List.replicate 144 8 ++ List.replicate 112 9 ++ List.replicate 24 7 ++
    List.replicate 8 8)

/-- The code for distances of blocks that give none. -/
def fixedDistances : Code := .ofLengths (List.replicate 32 5)

/-- The order in which a block gives the lengths of the code its other lengths are written with. -/
def lengthOrder : List Nat := [16, 17, 18, 0, 8, 7, 9, 6, 10, 5, 11, 4, 12, 3, 13, 2, 14, 1, 15]

namespace Inflating

/-- `count` numbers of three bits. -/
def lengthNumbers : (count : Nat) → Inflating (List Nat)
  | 0 => return []
  | count + 1 => do
    let n ← number 3
    return n :: (← lengthNumbers count)

/-- `missing` code lengths after those in `before`, last first; repetitions must end with them. -/
def codeLengths (code : Code) : (fuel missing : Nat) → (before : List Nat) → Inflating (List Nat)
  | _, 0, before => return before.reverse
  | 0, _, _ => incomplete
  | fuel + 1, missing + 1, before => do
    let s ← symbol code
    if s < 16 then codeLengths code fuel missing (s :: before)
    else
      let (value, least, width) ←
        if s = 16 then match before with
          | [] => corrupt
          | last :: _ => pure (last, 3, 2)
        else if s = 17 then pure (0, 3, 3)
        else pure (0, 11, 7)
      let count := least + (← number width)
      if count > missing + 1 then corrupt
      else codeLengths code fuel (missing + 1 - count) (List.replicate count value ++ before)

/-- The codes for octets and lengths and for distances that a block gives. -/
def givenCodes : Inflating (Code × Code) := do
  let literals := (← number 5) + 257
  let distances := (← number 5) + 1
  let lengths := (← number 4) + 4
  if literals > 286 || distances > 30 then corrupt
  let given := lengthOrder.zip (← lengthNumbers lengths)
  let lengths := (List.range 19).map fun s => (given.lookup s).getD 0
  if !Code.isComplete lengths then corrupt
  let all ← codeLengths (.ofLengths lengths) (literals + distances) (literals + distances) []
  match Code.ofLengths? (all.take literals), Code.ofLengths? (all.drop literals) with
  | some literals, some distances => return (literals, distances)
  | _, _ => corrupt

/-- A block of octets as they are: their number twice, the second time inverted, then the octets. -/
def storedBlock (space : Nat) : Inflating Unit := do
  align
  let length ← number 16
  let inverted ← number 16
  if length + inverted ≠ 0xFFFF then corrupt
  stored space length

/-- The blocks up to the last. Every block takes a bit, so `fuel` may be the number of bits left. -/
def blocks (space : Nat) : (fuel : Nat) → Inflating Unit
  | 0 => incomplete
  | fuel + 1 => do
    let last ← bit
    match ← number 2 with
    | 0 => storedBlock space
    | 1 => symbols space fixedLiterals fixedDistances (fuel + 1)
    | 2 =>
      let (literals, distances) ← givenCodes
      symbols space literals distances (fuel + 1)
    | _ => corrupt
    if last then return else blocks space fuel

/-- All blocks into a space. -/
def inflate (space : Nat) : Inflating Unit := do blocks space ((← bitsLeft) + 1)

end Inflating

/-! ## Writing -/

/-- A block of at most 65535 octets as they are. -/
def storedBlock (last : Bool) (octets : Octets) : Octets :=
  (if last then 1 else 0) :: Octets.littleEndian 2 octets.length ++
    Octets.littleEndian 2 (0xFFFF - octets.length) ++ octets

/-- Blocks of octets as they are, only the last marked as such. -/
def storedBlocks : List Octets → Octets
  | [] => storedBlock true []
  | [last] => storedBlock true last
  | piece :: pieces => storedBlock false piece ++ storedBlocks pieces

/-- Deflated data that expands to a string. -/
def deflateStored (octets : Octets) : Octets := storedBlocks (Octets.pieces 0xFFFF octets)

end OpenPGP.Compression
