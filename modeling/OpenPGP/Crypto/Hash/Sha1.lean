import OpenPGP.Crypto.Hash.Iterated
/-!
# SHA-1
-/
namespace OpenPGP.Crypto.Sha1

/-- The five chaining words. -/
structure State where
  a : UInt32
  b : UInt32
  c : UInt32
  d : UInt32
  e : UInt32

def rotateLeft (x n : UInt32) : UInt32 := (x <<< n) ||| (x >>> (32 - n))

/-- The eighty words of a block's schedule. -/
def schedule (block : Octets) : Array UInt32 :=
  (List.range 64).foldl (fun w i =>
    let earlier (back : Nat) := w.getD (i + 16 - back) 0
    w.push (rotateLeft (earlier 3 ^^^ earlier 8 ^^^ earlier 14 ^^^ earlier 16) 1)) (words32 block).toArray

/-- The round function and constant of round `i`. -/
def mix (i : Nat) (b c d : UInt32) : UInt32 :=
  if i < 20 then ((b &&& c) ||| (~~~b &&& d)) + 0x5a827999
  else if i < 40 then (b ^^^ c ^^^ d) + 0x6ed9eba1
  else if i < 60 then ((b &&& c) ||| (b &&& d) ||| (c &&& d)) + 0x8f1bbcdc
  else (b ^^^ c ^^^ d) + 0xca62c1d6

def round (s : State) (i : Nat) (w : UInt32) : State :=
  ⟨rotateLeft s.a 5 + mix i s.b s.c s.d + s.e + w, s.a, rotateLeft s.b 30, s.c, s.d⟩

def compress (s : State) (block : Octets) : State :=
  let w := schedule block
  let t := (List.range 80).foldl (fun t i => round t i (w.getD i 0)) s
  ⟨s.a + t.a, s.b + t.b, s.c + t.c, s.d + t.d, s.e + t.e⟩

def sha1 : BlockHash State where
  start := ⟨0x67452301, 0xefcdab89, 0x98badcfe, 0x10325476, 0xc3d2e1f0⟩
  blockSize := 64
  lengthSize := 8
  compress := compress
  digest s := octets32 s.a ++ octets32 s.b ++ octets32 s.c ++ octets32 s.d ++ octets32 s.e

end OpenPGP.Crypto.Sha1
