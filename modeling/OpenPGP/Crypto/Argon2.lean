import OpenPGP.Crypto.Error
import OpenPGP.Crypto.Hash.Blake2b
/-!
# Argon2id

A memory-hard derivation (version 19). Memory is a table of blocks of 1024
octets, cut into lanes and every lane into four segments. Each pass fills the
segments in order; a new block mixes the block before it in its lane with an
earlier block, which the first half of the first pass picks by position and the
rest by content. The key is a hash of the exclusive or of the last blocks.
-/
namespace OpenPGP.Crypto.Argon2

open Blake2b (Row)

/-- 128 words. -/
abbrev Block := Array UInt64

/-- The cost of a derivation: passes, memory in KiB, lanes. -/
structure Cost where
  passes : Nat
  memory : Nat
  lanes : Nat
  deriving DecidableEq, Repr

/-- The first limit a cost and the size of the key break. -/
def Cost.defect? (c : Cost) (size : Nat) : Option ParameterDefect :=
  if c.memory < 8 then some .memoryCost
  else if c.memory < 8 * c.lanes then some .memoryCost
  else if c.passes < 1 then some .timeCost
  else if c.lanes < 1 then some .threads
  else if size < 4 then some .output
  else none

/-- The blocks in a segment. -/
def Cost.segment (c : Cost) : Nat := c.memory / (4 * c.lanes)

/-- The blocks in a lane. -/
def Cost.lane (c : Cost) : Nat := 4 * c.segment

/-! ## Mixing -/

def zeroBlock : Block := Array.replicate 128 0

def xor (a b : Block) : Block := Array.zipWith (· ^^^ ·) a b

/-- The sum with twice the product of the low halves. -/
@[inline] def multiplyAdd (x y : UInt64) : UInt64 :=
  x + y + 2 * ((x &&& 0xFFFFFFFF) * (y &&& 0xFFFFFFFF))

/-- One round on the sixteen words of a block at some indices. -/
def permute (index : Nat → Nat) (b : Block) : Block :=
  let v (i : Nat) : UInt64 := b.getD (index i) 0
  let r := Blake2b.roundWith multiplyAdd (fun _ => 0)
    ⟨v 0, v 1, v 2, v 3, v 4, v 5, v 6, v 7, v 8, v 9, v 10, v 11, v 12, v 13, v 14, v 15⟩
  let set (b : Block) (i : Nat) (w : UInt64) : Block := b.setIfInBounds (index i) w
  let b := set (set (set (set b 0 r.v0) 1 r.v1) 2 r.v2) 3 r.v3
  let b := set (set (set (set b 4 r.v4) 5 r.v5) 6 r.v6) 7 r.v7
  let b := set (set (set (set b 8 r.v8) 9 r.v9) 10 r.v10) 11 r.v11
  set (set (set (set b 12 r.v12) 13 r.v13) 14 r.v14) 15 r.v15

/-- Mixes two blocks: rounds on the rows and then on the columns of their exclusive or. -/
def mix (a b : Block) : Block :=
  let start := xor a b
  let rows := (List.range 8).foldl (fun b row => permute (fun i => 16 * row + i) b) start
  let columns := (List.range 8).foldl
    (fun b column => permute (fun i => 16 * (i / 2) + 2 * column + i % 2) b) rows
  xor start columns

/-! ## Hashes -/

/-- Half digests of a chain of hashes while more than one whole digest is asked for, then the rest. -/
def chain : (count : Nat) → (size : Nat) → (last : Octets) → Octets
  | 0, _, _ => []
  | count + 1, size, last =>
    if size ≤ 64 then Blake2b.hash size last
    else
      let digest := Blake2b.hash 64 last
      digest.take 32 ++ chain count (size - 32) digest

/-- The hash with digests of any size. -/
def longHash (size : Nat) (data : Octets) : Octets :=
  chain (size / 32 + 1) size (Octets.littleEndian 4 size ++ data)

/-- The hash of all inputs. -/
def seed (c : Cost) (size : Nat) (password salt : Octets) : Octets :=
  let number := Octets.littleEndian 4
  Blake2b.hash 64 (number c.lanes ++ number size ++ number c.memory ++ number c.passes ++
    number 0x13 ++ number 2 ++ number password.length ++ password ++ number salt.length ++ salt ++
    number 0 ++ number 0)

/-! ## Filling -/

/-- Where a block stands: pass, lane, segment of the lane, index in the segment. -/
structure Place where
  pass : Nat
  lane : Nat
  slice : Nat
  index : Nat

/-- The pseudorandom words that pick by position, for the addresses from `128 * (counter - 1)` on. -/
def addresses (c : Cost) (p : Place) (counter : Nat) : Block :=
  let input := ([p.pass, p.lane, p.slice, c.lanes * c.lane, c.passes, 2, counter].map
    Nat.toUInt64).toArray ++ Array.replicate 121 0
  mix zeroBlock (mix zeroBlock input)

/-- Whether a place picks by position. -/
def byPosition (p : Place) : Bool := p.pass = 0 && p.slice < 2

/-- The position of the earlier block a pseudorandom word picks for a place. -/
def pick (c : Cost) (p : Place) (word : UInt64) : Nat :=
  let low := word.toNat % 0x100000000
  let lane := if p.pass = 0 ∧ p.slice = 0 then p.lane else word.toNat >>> 32 % c.lanes
  let sameLane := lane = p.lane
  let finished := if p.pass = 0 then p.slice * c.segment else 3 * c.segment
  let area :=
    if sameLane then finished + p.index - 1
    else if p.index = 0 then finished - 1
    else finished
  let back := (area * ((low * low) >>> 32)) >>> 32
  let start := if p.pass = 0 then 0 else (p.slice + 1) * c.segment % c.lane
  lane * c.lane + (start + (area - 1 - back)) % c.lane

/-- Fills one place. `words` are the addresses of the stretch of 128 it lies in. -/
def fillPlace (c : Cost) (memory : Array Block) (p : Place) (words : Block) : Array Block :=
  let column := p.slice * c.segment + p.index
  let here := p.lane * c.lane + column
  let before := p.lane * c.lane + (column + c.lane - 1) % c.lane
  let last := memory.getD before zeroBlock
  let word := if byPosition p then words.getD (p.index % 128) 0 else last.getD 0 0
  let mixed := mix last (memory.getD (pick c p word) zeroBlock)
  memory.setIfInBounds here (if p.pass = 0 then mixed else xor mixed (memory.getD here zeroBlock))

/-- Fills a segment; the first two blocks of a lane come from the seed. -/
def fillSegment (c : Cost) (memory : Array Block) (pass slice lane : Nat) : Array Block :=
  let first := if pass = 0 ∧ slice = 0 then 2 else 0
  ((List.range c.segment).foldl (fun (memory, words) index =>
    let p : Place := ⟨pass, lane, slice, index⟩
    let words := if byPosition p ∧ index % 128 = 0 then addresses c p (index / 128 + 1) else words
    (if index < first then memory else fillPlace c memory p words, words)) (memory, zeroBlock)).1

/-- The table with the first two blocks of every lane. -/
def firstBlocks (c : Cost) (seed : Octets) : Array Block :=
  (List.range c.lanes).foldl (fun memory lane =>
    (List.range 2).foldl (fun memory i =>
      let octets := longHash 1024 (seed ++ Octets.littleEndian 4 i ++ Octets.littleEndian 4 lane)
      memory.setIfInBounds (lane * c.lane + i) (Blake2b.words octets).toArray) memory)
    (Array.replicate (c.lanes * c.lane) zeroBlock)

/-- A key of `size` octets. -/
def derive (c : Cost) (size : Nat) (password salt : Octets) : Except CryptoError Octets :=
  match c.defect? size with
  | some defect => .error (.invalidParameters defect)
  | none =>
    let filled := (List.range c.passes).foldl (fun memory pass =>
      (List.range 4).foldl (fun memory slice =>
        (List.range c.lanes).foldl (fun memory lane => fillSegment c memory pass slice lane) memory)
        memory) (firstBlocks c (seed c size password salt))
    let last := (List.range c.lanes).foldl (fun sum lane =>
      xor sum (filled.getD (lane * c.lane + c.lane - 1) zeroBlock)) zeroBlock
    .ok (longHash size (last.toList.flatMap Blake2b.octets))

end OpenPGP.Crypto.Argon2
