import OpenPGP.Crypto.Aead.Counter
/-!
# Offset codebook mode

Each whole block is masked with an offset before and after the cipher; a last
part of a block is masked with the encryption of its offset. The tag is the
encryption of the masked exclusive or of the plaintext, combined with a hash of
the associated data. Nonces have fifteen octets and tags sixteen.
-/
namespace OpenPGP.Crypto.Ocb

/-- The masks of a key: for a last part, for the tag, and for blocks by the zeros their number ends in. -/
structure Masks where
  part : Octets
  tag : Octets
  block : Nat → Octets

def Masks.ofCipher (cipher : Octets → Octets) : Masks :=
  let part := cipher (List.replicate 16 0)
  let tag := doubled part
  { part, tag, block := fun zeros => Nat.repeat doubled zeros (doubled tag) }

/-- The zero bits a positive number ends in. -/
def trailingZeros (n : Nat) : Nat :=
  if _even : n % 2 = 0 ∧ n ≠ 0 then trailingZeros (n / 2) + 1 else 0
termination_by n
decreasing_by omega

/-- The offset before the first block, cut out of a stretch of the encrypted nonce. -/
def firstOffset (cipher : Octets → Octets) (nonce : Octets) : Octets :=
  let block := Octets.ofBigEndian (1 :: nonce)
  let shift := block % 64
  let top := Octets.ofBigEndian (cipher (Octets.bigEndian 16 (block - shift)))
  let stretch := (top <<< 64) + ((top >>> 64) ^^^ (top >>> 56) % (1 <<< 64))
  Octets.bigEndian 16 (stretch >>> (64 - shift))

/-- A part of a block filled up with `0x80` and zeros. -/
def filled (part : Octets) : Octets := (Octets.resize 16 (part ++ [0x80])).val

/-- Works through whole blocks with the cipher in either direction, from block number `i` on: the
blocks, the last offset and the unfinished part. -/
def blocks (masks : Masks) (direction : Octets → Octets) (i : Nat) (offset data : Octets) :
    List Octets × Octets × Octets :=
  if _whole : (data.take 16).length = 16 then
    let offset := Octets.xor offset (masks.block (trailingZeros i))
    let block := Octets.xor offset (direction (Octets.xor offset (data.take 16)))
    let (rest, last, part) := blocks masks direction (i + 1) offset (data.drop 16)
    (block :: rest, last, part)
  else ([], offset, data)
termination_by data.length
decreasing_by
  simp only [List.length_take] at _whole; simp only [List.length_drop]; omega

/-- Data through the cipher in either direction, and the offset the tag is masked with. -/
def transform (cipher direction : Octets → Octets) (nonce data : Octets) : Octets × Octets :=
  let masks := Masks.ofCipher cipher
  let (whole, offset, part) := blocks masks direction 1 (firstOffset cipher nonce) data
  if part = [] then (whole.flatten, offset)
  else
    let offset := Octets.xor offset masks.part
    (whole.flatten ++ Octets.xor part (cipher offset), offset)

/-- The hash of associated data. -/
def hash (cipher : Octets → Octets) (associated : Octets) : Octets :=
  let masks := Masks.ofCipher cipher
  let zeros : Octets := List.replicate 16 0
  let step (state : Octets × Octets × Nat) (block : Octets) : Octets × Octets × Nat :=
    let (sum, offset, i) := state
    if block.length = 16 then
      let offset := Octets.xor offset (masks.block (trailingZeros i))
      (Octets.xor sum (cipher (Octets.xor block offset)), offset, i + 1)
    else
      let offset := Octets.xor offset masks.part
      (Octets.xor sum (cipher (Octets.xor (filled block) offset)), offset, i + 1)
  ((associated.pieces 16).foldl step (zeros, zeros, 1)).1

/-- The exclusive or of the blocks of the plaintext, the last filled up. -/
def checksum (plaintext : Octets) : Octets :=
  (plaintext.pieces 16).foldl
    (fun sum block => Octets.xor sum (if block.length = 16 then block else filled block))
    (List.replicate 16 0)

def tag (cipher : Octets → Octets) (nonce associated plaintext : Octets) : Octets :=
  let masks := Masks.ofCipher cipher
  let offset := (transform cipher cipher nonce plaintext).2
  Octets.xor (cipher (Octets.xor (Octets.xor (checksum plaintext) offset) masks.tag))
    (hash cipher associated)

end OpenPGP.Crypto.Ocb
