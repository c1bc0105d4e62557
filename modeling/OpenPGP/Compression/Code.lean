import OpenPGP.MessageError
/-!
# Bits and code trees

Compressed data is a string of bits, least significant bit of each octet first,
in which symbols are written with codes none of which begins another. A code is
a tree: zero leads to one branch, one to the other. `Code.ofLengths` builds the
canonical code of given lengths, shorter codes first and equal lengths in the
order of their symbols.

Results:
* `bitsOf_length`: an octet has eight bits.
-/
namespace OpenPGP.Compression

/-! ## Bits -/

/-- The bits of an octet, least significant first. -/
def bitsOf (b : UInt8) : List Bool := (List.range 8).map b.toNat.testBit

@[simp] theorem bitsOf_length (b : UInt8) : (bitsOf b).length = 8 := by simp [bitsOf]

/-- Bits to be read, off octets that come in pieces. -/
structure Bits where
  /-- What is left of the octet begun. -/
  begun : List Bool
  /-- The octets after it in the same piece. -/
  rest : Octets
  /-- The pieces after that one. -/
  later : List Octets

namespace Bits

/-- The bits of a string that comes in pieces of `size` octets. -/
def ofOctets (size : Nat) (octets : Octets) : Bits := ⟨[], [], Octets.pieces size octets⟩

/-- How many bits are left. -/
def count (b : Bits) : Nat :=
  b.later.foldl (fun total piece => total + 8 * piece.length) (b.begun.length + 8 * b.rest.length)

/-- The next bit of the piece at hand and the bits after it. -/
def next? : Bits → Option (Bool × Bits)
  | ⟨bit :: begun, rest, later⟩ => some (bit, ⟨begun, rest, later⟩)
  | ⟨[], octet :: rest, later⟩ => some (octet.toNat.testBit 0, ⟨(bitsOf octet).tail, rest, later⟩)
  | ⟨[], [], _⟩ => none

/-- The bits from the next piece on. -/
def nextPiece? : Bits → Option Bits
  | ⟨_, _, piece :: later⟩ => some ⟨[], piece, later⟩
  | ⟨_, _, []⟩ => none

/-- The bits from the next whole octet on. -/
def aligned (b : Bits) : Bits := { b with begun := [] }

end Bits

/-! ## Codes -/

/-- A code as a tree. -/
inductive Code where
  /-- No symbol has a code that begins like this. -/
  | unused
  | symbol (value : Nat)
  | branch (zero one : Code)
  deriving Repr

namespace Code

/-- The greatest length of a code. -/
def maxLength : Nat := 15

/-- The tree for the symbols that are left, as pairs of length and symbol, shortest first, in a branch
at a depth; and the symbols that found no place in it. -/
def grow : (height : Nat) → (depth : Nat) → List (Nat × Nat) → Code × List (Nat × Nat)
  | _, _, [] => (unused, [])
  | 0, _, (_, value) :: left => (symbol value, left)
  | height + 1, depth, (length, value) :: left =>
    if length ≤ depth then (symbol value, left)
    else
      let (zero, left) := grow height (depth + 1) ((length, value) :: left)
      let (one, left) := grow height (depth + 1) left
      (branch zero one, left)

/-- The symbols that have a code, as pairs of length and symbol, shortest first. -/
def used (lengths : List Nat) : List (Nat × Nat) :=
  (List.range maxLength).flatMap fun i =>
    (lengths.zipIdx.filter fun p => p.1 = i + 1)

/-- The share of all bit strings of the greatest length that begin with a code. -/
def coverage (lengths : List Nat) : Nat :=
  (used lengths).foldl (fun total p => total + 1 <<< (maxLength - p.1)) 0

/-- Whether codes of these lengths begin every bit string exactly once. -/
def isComplete (lengths : List Nat) : Bool := coverage lengths = 1 <<< maxLength

/-- The canonical code of these lengths; zero means no code. Every code has a first bit, so there are
two branches even if no symbol has a code. -/
def ofLengths (lengths : List Nat) : Code :=
  let (zero, left) := grow (maxLength - 1) 1 (used lengths)
  branch zero (grow (maxLength - 1) 1 left).1

/-- Whether no symbol has a code, or a single one, of one bit. -/
def isTrivial (lengths : List Nat) : Bool :=
  match used lengths with
  | [] => true
  | [(length, _)] => length = 1
  | _ => false

/-- The canonical code of lengths that are complete or trivial. -/
def ofLengths? (lengths : List Nat) : Option Code :=
  if isComplete lengths || isTrivial lengths then some (ofLengths lengths) else none

end Code

end OpenPGP.Compression
