import OpenPGP.Octets
/-!
# BLAKE2b

The unkeyed hash with digests of one to 64 octets, and its round function on
sixteen words, which Argon2 uses with another mixing step.
-/
namespace OpenPGP.Crypto.Blake2b

/-- Sixteen words. -/
structure Row where
  v0 : UInt64
  v1 : UInt64
  v2 : UInt64
  v3 : UInt64
  v4 : UInt64
  v5 : UInt64
  v6 : UInt64
  v7 : UInt64
  v8 : UInt64
  v9 : UInt64
  v10 : UInt64
  v11 : UInt64
  v12 : UInt64
  v13 : UInt64
  v14 : UInt64
  v15 : UInt64

def initialWords : List UInt64 :=
  [0x6a09e667f3bcc908, 0xbb67ae8584caa73b, 0x3c6ef372fe94f82b, 0xa54ff53a5f1d36f1,
   0x510e527fade682d1, 0x9b05688c2b3e6c1f, 0x1f83d9abfb41bd6b, 0x5be0cd19137e2179]

def permutations : List (List Nat) :=
  [[0, 1, 2, 3, 4, 5, 6, 7, 8, 9, 10, 11, 12, 13, 14, 15],
   [14, 10, 4, 8, 9, 15, 13, 6, 1, 12, 0, 2, 11, 7, 5, 3],
   [11, 8, 12, 0, 5, 2, 15, 13, 10, 14, 3, 6, 7, 1, 9, 4],
   [7, 9, 3, 1, 13, 12, 11, 14, 2, 6, 5, 10, 4, 0, 15, 8],
   [9, 0, 5, 7, 2, 4, 10, 15, 14, 1, 11, 12, 6, 8, 3, 13],
   [2, 12, 6, 10, 0, 11, 8, 3, 4, 13, 7, 5, 15, 14, 1, 9],
   [12, 5, 1, 15, 14, 13, 4, 10, 0, 7, 6, 3, 9, 2, 8, 11],
   [13, 11, 7, 14, 12, 1, 3, 9, 5, 0, 15, 4, 8, 6, 2, 10],
   [6, 15, 14, 9, 11, 3, 0, 8, 12, 2, 13, 7, 1, 4, 10, 5],
   [10, 2, 8, 4, 7, 6, 1, 5, 15, 11, 9, 14, 3, 12, 13, 0],
   [0, 1, 2, 3, 4, 5, 6, 7, 8, 9, 10, 11, 12, 13, 14, 15],
   [14, 10, 4, 8, 9, 15, 13, 6, 1, 12, 0, 2, 11, 7, 5, 3]]

@[inline] def rotateRight (x n : UInt64) : UInt64 := (x >>> n) ||| (x <<< (64 - n))

/-- Four words of the mixing step. -/
structure Quarter where
  a : UInt64
  b : UInt64
  c : UInt64
  d : UInt64

/-- The mixing step, `add` being the sum it is built on and `x`, `y` message words. -/
@[inline] def mixWith (add : UInt64 → UInt64 → UInt64) (q : Quarter) (x y : UInt64) : Quarter :=
  let a := add q.a q.b + x
  let d := rotateRight (q.d ^^^ a) 32
  let c := add q.c d
  let b := rotateRight (q.b ^^^ c) 24
  let a := add a b + y
  let d := rotateRight (d ^^^ a) 16
  let c := add c d
  let b := rotateRight (b ^^^ c) 63
  ⟨a, b, c, d⟩

/-- The mixing step on columns and then on diagonals, with the message words of a round. -/
@[inline] def roundWith (add : UInt64 → UInt64 → UInt64) (m : Nat → UInt64) (v : Row) : Row :=
  let p := mixWith add ⟨v.v0, v.v4, v.v8, v.v12⟩ (m 0) (m 1)
  let q := mixWith add ⟨v.v1, v.v5, v.v9, v.v13⟩ (m 2) (m 3)
  let r := mixWith add ⟨v.v2, v.v6, v.v10, v.v14⟩ (m 4) (m 5)
  let s := mixWith add ⟨v.v3, v.v7, v.v11, v.v15⟩ (m 6) (m 7)
  let t := mixWith add ⟨p.a, q.b, r.c, s.d⟩ (m 8) (m 9)
  let u := mixWith add ⟨q.a, r.b, s.c, p.d⟩ (m 10) (m 11)
  let w := mixWith add ⟨r.a, s.b, p.c, q.d⟩ (m 12) (m 13)
  let z := mixWith add ⟨s.a, p.b, q.c, r.d⟩ (m 14) (m 15)
  ⟨t.a, u.a, w.a, z.a, z.b, t.b, u.b, w.b, w.c, z.c, t.c, u.c, u.d, w.d, z.d, t.d⟩

/-- The words of a string, least significant octet first. -/
def words : Octets → List UInt64
  | a :: b :: c :: d :: e :: f :: g :: h :: rest =>
    (h.toUInt64 <<< 56 ||| g.toUInt64 <<< 48 ||| f.toUInt64 <<< 40 ||| e.toUInt64 <<< 32 |||
      d.toUInt64 <<< 24 ||| c.toUInt64 <<< 16 ||| b.toUInt64 <<< 8 ||| a.toUInt64) :: words rest
  | _ => []

/-- The eight octets of a word, least significant first. -/
def octets (w : UInt64) : Octets :=
  [w.toUInt8, (w >>> 8).toUInt8, (w >>> 16).toUInt8, (w >>> 24).toUInt8, (w >>> 32).toUInt8,
   (w >>> 40).toUInt8, (w >>> 48).toUInt8, (w >>> 56).toUInt8]

/-- Takes a block into eight chaining words, `length` octets having been seen up to its end. -/
def compress (h : List UInt64) (block : Octets) (length : Nat) (last : Bool) : List UInt64 :=
  let m := (words (Octets.resize 128 block).val).toArray
  let word (l : List UInt64) (i : Nat) := l.getD i 0
  let iv := word initialWords
  let start : Row :=
    ⟨word h 0, word h 1, word h 2, word h 3, word h 4, word h 5, word h 6, word h 7,
     iv 0, iv 1, iv 2, iv 3, iv 4 ^^^ length.toUInt64, iv 5 ^^^ (length >>> 64).toUInt64,
     (if last then ~~~iv 6 else iv 6), iv 7⟩
  let v := permutations.foldl
    (fun v order => roundWith (· + ·) (fun i => m.getD (order.getD i 0) 0) v) start
  [word h 0 ^^^ v.v0 ^^^ v.v8, word h 1 ^^^ v.v1 ^^^ v.v9, word h 2 ^^^ v.v2 ^^^ v.v10,
   word h 3 ^^^ v.v3 ^^^ v.v11, word h 4 ^^^ v.v4 ^^^ v.v12, word h 5 ^^^ v.v5 ^^^ v.v13,
   word h 6 ^^^ v.v6 ^^^ v.v14, word h 7 ^^^ v.v7 ^^^ v.v15]

/-- Takes the blocks of a string into the chaining words; `seen` octets came before. -/
def absorb (h : List UInt64) (seen : Nat) : List Octets → List UInt64
  | [] => compress h [] seen true
  | [block] => compress h block (seen + block.length) true
  | block :: rest => absorb (compress h block (seen + block.length) false) (seen + block.length) rest

/-- The digest of `size` octets, one to 64. -/
def hash (size : Nat) (data : Octets) : Octets :=
  let h := match initialWords with
    | first :: rest => (first ^^^ 0x01010000 ^^^ size.toUInt64) :: rest
    | [] => []
  ((absorb h 0 (Octets.pieces 128 data)).flatMap octets).take size

end OpenPGP.Crypto.Blake2b
