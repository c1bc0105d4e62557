import OpenPGP.Crypto.Aead.Counter
import OpenPGP.Crypto.Hash.Iterated
/-!
# Galois/counter mode

Counter encryption from a nonce of twelve octets and a tag from a polynomial
over GF(2^128) in associated data, ciphertext and their lengths.
-/
namespace OpenPGP.Crypto.Gcm

/-- An element of GF(2^128), first octet in the high bits; the first bit is the constant term. -/
structure Element where
  high : UInt64
  low : UInt64
  deriving DecidableEq, Repr

namespace Element

def zero : Element := ⟨0, 0⟩

def xor (a b : Element) : Element := ⟨a.high ^^^ b.high, a.low ^^^ b.low⟩

/-- Adds `v` times each of the `bits` left of the first factor, `v` being multiplied by `x` each time. -/
def accumulate : (bits : Nat) → (high low : UInt64) → (sum v : Element) → Element
  | 0, _, _, sum, _ => sum
  | bits + 1, high, low, sum, v =>
    let sum := if high >>> 63 = 0 then sum else sum.xor v
    let shifted : Element := ⟨v.high >>> 1, (v.low >>> 1) ||| (v.high <<< 63)⟩
    let v := if v.low &&& 1 = 0 then shifted else shifted.xor ⟨0xE100000000000000, 0⟩
    accumulate bits ((high <<< 1) ||| (low >>> 63)) (low <<< 1) sum v

def mul (a b : Element) : Element := accumulate 128 a.high a.low zero b

/-- The element of a block, filled up with zeros. -/
def ofOctets (block : Octets) : Element :=
  match words64 (Octets.resize 16 block).val with
  | [high, low] => ⟨high, low⟩
  | _ => zero

def octets (a : Element) : Octets := octets64 a.high ++ octets64 a.low

end Element

/-- The polynomial in associated data, ciphertext and their lengths in bits. -/
def hash (key : Element) (associated ciphertext : Octets) : Element :=
  let lengths := Octets.bigEndian 8 (8 * associated.length) ++ Octets.bigEndian 8 (8 * ciphertext.length)
  let blocks := associated.pieces 16 ++ ciphertext.pieces 16 ++ [lengths]
  blocks.foldl (fun sum block => (sum.xor (.ofOctets block)).mul key) .zero

/-- The encryption of the nonce and a counter; the data starts at counter two. -/
def counterBlock (cipher : Octets → Octets) (nonce : Octets) (counter : Nat) : Octets.Sized 16 :=
  wholeBlock cipher (nonce ++ Octets.bigEndian 4 counter)

def stream (cipher : Octets → Octets) (nonce : Octets) (i : Nat) : Octets.Sized 16 :=
  counterBlock cipher nonce (i + 2)

def tag (cipher : Octets → Octets) (nonce associated ciphertext : Octets) : Octets :=
  let key := Element.ofOctets (cipher (List.replicate 16 0))
  Octets.xor (hash key associated ciphertext).octets (counterBlock cipher nonce 1).val

end OpenPGP.Crypto.Gcm
