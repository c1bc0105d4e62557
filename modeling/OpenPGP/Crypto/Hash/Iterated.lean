import OpenPGP.Octets
/-!
# Iterated hashing

A hash of this kind works through its input block by block. `BlockHash` gives
the block function, the first state, the sizes and how a state becomes a digest;
`HashContext` holds the state after the whole blocks seen so far and the octets
of the unfinished block. Finishing pads with `0x80`, zeros and the number of
bits hashed.
-/
namespace OpenPGP.Crypto

/-- A hash given by its block function on states of type `σ`. -/
structure BlockHash (σ : Type) where
  start : σ
  /-- Octets in a block. -/
  blockSize : Nat
  /-- Octets the number of bits takes at the end of the padding. -/
  lengthSize : Nat
  compress : σ → Octets → σ
  digest : σ → Octets

/-- A hash computation that has seen part of its input. -/
structure HashContext (σ : Type) where
  state : σ
  /-- The octets of the unfinished block. -/
  pending : Octets
  /-- The number of octets seen. -/
  length : Nat

namespace BlockHash

variable {σ : Type}

def initial (h : BlockHash σ) : HashContext σ := ⟨h.start, [], 0⟩

/-- Works through the whole blocks of some octets and keeps the rest. -/
def absorb (h : BlockHash σ) (state : σ) (octets : Octets) : σ × Octets :=
  let block := octets.take h.blockSize
  if _whole : 0 < h.blockSize ∧ block.length = h.blockSize then
    h.absorb (h.compress state block) (octets.drop h.blockSize)
  else (state, octets)
termination_by octets.length
decreasing_by
  have : octets.length ≥ h.blockSize := by
    have := _whole.2; simp only [block, List.length_take] at this; omega
  simp only [List.length_drop]; omega

/-- Feeds more input. -/
def update (h : BlockHash σ) (c : HashContext σ) (data : Octets) : HashContext σ :=
  let (state, pending) := h.absorb c.state (c.pending ++ data)
  ⟨state, pending, c.length + data.length⟩

/-- The octets that fill the input up to whole blocks: `0x80`, zeros and the number of bits. -/
def padding (h : BlockHash σ) (length : Nat) : Octets :=
  let used := (length + 1 + h.lengthSize) % h.blockSize
  0x80 :: List.replicate ((h.blockSize - used) % h.blockSize) 0 ++
    Octets.bigEndian h.lengthSize (8 * length)

/-- The digest of everything seen. -/
def finish (h : BlockHash σ) (c : HashContext σ) : Octets :=
  h.digest (h.absorb c.state (c.pending ++ h.padding c.length)).1

/-- The digest of a string. -/
def hash (h : BlockHash σ) (data : Octets) : Octets := h.finish (h.update h.initial data)

end BlockHash

/-- The words of a string, most significant octet first. -/
def words32 : Octets → List UInt32
  | a :: b :: c :: d :: rest =>
    (a.toUInt32 <<< 24 ||| b.toUInt32 <<< 16 ||| c.toUInt32 <<< 8 ||| d.toUInt32) :: words32 rest
  | _ => []

/-- The 64-bit words of a string, most significant octet first. -/
def words64 : Octets → List UInt64
  | a :: b :: c :: d :: e :: f :: g :: h :: rest =>
    (a.toUInt64 <<< 56 ||| b.toUInt64 <<< 48 ||| c.toUInt64 <<< 40 ||| d.toUInt64 <<< 32 |||
      e.toUInt64 <<< 24 ||| f.toUInt64 <<< 16 ||| g.toUInt64 <<< 8 ||| h.toUInt64) :: words64 rest
  | _ => []

/-- The four octets of a word, most significant first. -/
def octets32 (w : UInt32) : Octets :=
  [(w >>> 24).toUInt8, (w >>> 16).toUInt8, (w >>> 8).toUInt8, w.toUInt8]

/-- The eight octets of a word, most significant first. -/
def octets64 (w : UInt64) : Octets :=
  [(w >>> 56).toUInt8, (w >>> 48).toUInt8, (w >>> 40).toUInt8, (w >>> 32).toUInt8,
   (w >>> 24).toUInt8, (w >>> 16).toUInt8, (w >>> 8).toUInt8, w.toUInt8]

end OpenPGP.Crypto
