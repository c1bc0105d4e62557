import OpenPGP.Octets
/-!
# A seeded generator

The key stream of ChaCha20 with a 64-bit block counter, read word by word, as a
generator of reproducible octets. A 64-bit seed is stretched to the key by a
linear congruential generator with permuted output. Taking octets uses up whole
words: what is left of the last word is dropped.
-/
namespace OpenPGP.Crypto

namespace ChaCha20

/-- The sixteen words of a state. -/
abbrev Words := Array UInt32

def rotateLeft (x n : UInt32) : UInt32 := (x <<< n) ||| (x >>> (32 - n))

/-- The quarter round on the words at four indices. -/
def quarterRound (s : Words) (i j k l : Nat) : Words :=
  let word (n : Nat) : UInt32 := s.getD n 0
  let a := word i + word j
  let d := rotateLeft (word l ^^^ a) 16
  let c := word k + d
  let b := rotateLeft (word j ^^^ c) 12
  let a := a + b
  let d := rotateLeft (d ^^^ a) 8
  let c := c + d
  let b := rotateLeft (b ^^^ c) 7
  (((s.setIfInBounds i a).setIfInBounds j b).setIfInBounds k c).setIfInBounds l d

/-- Rounds on the columns, then on the diagonals. -/
def doubleRound (s : Words) : Words :=
  let s := quarterRound (quarterRound s 0 4 8 12) 1 5 9 13
  let s := quarterRound (quarterRound s 2 6 10 14) 3 7 11 15
  let s := quarterRound (quarterRound s 0 5 10 15) 1 6 11 12
  quarterRound (quarterRound s 2 7 8 13) 3 4 9 14

/-- Block `counter` of the key stream of eight key words. -/
def block (key : List UInt32) (counter : Nat) : List UInt32 :=
  let start : Words :=
    (([0x61707865, 0x3320646e, 0x79622d32, 0x6b206574] : List UInt32) ++ key ++
      [counter.toUInt32, (counter >>> 32).toUInt32, 0, 0]).toArray
  (Array.zipWith (· + ·) start (Nat.repeat doubleRound 10 start)).toList

/-- The key words of a seed. -/
def keyWords : (count : Nat) → (state : UInt64) → List UInt32
  | 0, _ => []
  | count + 1, state =>
    let state := state * 6364136223846793005 + 11634580027462260723
    let mixed := (((state >>> 18) ^^^ state) >>> 27).toUInt32
    let turn := (state >>> 59).toUInt32
    ((mixed >>> turn) ||| (mixed <<< ((32 - turn) % 32))) :: keyWords count state

end ChaCha20

/-- A generator: its key and how many words were used up. -/
structure Generator where
  key : List UInt32
  position : Nat
  deriving DecidableEq, Repr

namespace Generator

def ofSeed (seed : UInt64) : Generator := ⟨ChaCha20.keyWords 8 seed, 0⟩

/-- The next `n` octets and the generator behind the words they took. -/
def octets (g : Generator) (n : Nat) : Octets × Generator :=
  let words := (n + 3) / 4
  let first := g.position / 16
  let last := (g.position + words + 15) / 16
  let stream := (List.range (last - first)).flatMap fun i => ChaCha20.block g.key (first + i)
  let taken := (stream.drop (g.position % 16)).take words
  let octets : Octets := taken.flatMap fun (w : UInt32) =>
    [w.toUInt8, (w >>> 8).toUInt8, (w >>> 16).toUInt8, (w >>> 24).toUInt8]
  (octets.take n, { g with position := g.position + words })

end Generator

end OpenPGP.Crypto
