import OpenPGP.Crypto.Curve.Field25519
import OpenPGP.Crypto.Hash
/-!
# Ed25519

Points of the twisted Edwards curve in extended coordinates, their octets, and
signatures. Verification is strict: the scalar of a signature must be below the
order of the group, and neither the key nor the point of the signature may be of
small order.
-/
namespace OpenPGP.Crypto.Ed25519

open Field25519

/-- A point as `(x / z, y / z)` with `t / z` the product of both. -/
structure Point where
  x : Nat
  y : Nat
  z : Nat
  t : Nat

/-- The order of the group of the base point. -/
def order : Nat := (1 <<< 252) + 27742317777372353535851937790883648493

/-- The constant of the curve, `-121665 / 121666`. -/
def d : Nat := mul (sub 0 121665) (inverse 121666)

namespace Point

def identity : Point := ⟨0, 1, 1, 0⟩

def add (p q : Point) : Point :=
  let a := mul (sub p.y p.x) (sub q.y q.x)
  let b := mul (Field25519.add p.y p.x) (Field25519.add q.y q.x)
  let c := mul (mul (mul p.t 2) d) q.t
  let dd := mul (mul p.z 2) q.z
  let e := sub b a
  let f := sub dd c
  let g := Field25519.add dd c
  let h := Field25519.add b a
  ⟨mul e f, mul g h, mul f g, mul e h⟩

def neg (p : Point) : Point := ⟨sub 0 p.x, p.y, p.z, sub 0 p.t⟩

/-- Adds to `sum` the multiple of `p` by the lowest `bits` bits of a scalar. -/
def addMultiple (scalar : Nat) : (bits : Nat) → (p sum : Point) → Point
  | 0, _, sum => sum
  | bits + 1, p, sum =>
    let sum := if scalar % 2 = 1 then sum.add p else sum
    addMultiple (scalar / 2) bits (p.add p) sum

def multiply (scalar : Nat) (p : Point) : Point := addMultiple scalar 256 p identity

/-- Whether both stand for one point. -/
def same (p q : Point) : Bool := mul p.x q.z = mul q.x p.z && mul p.y q.z = mul q.y p.z

/-- Whether eight times the point is the identity. -/
def isSmallOrder (p : Point) : Bool :=
  let double (p : Point) := p.add p
  (double (double (double p))).same identity

/-- The point with a given `y` and, of its two `x`, the odd one if `odd`. -/
def ofY? (y : Nat) (odd : Bool) : Option Point :=
  let y := y % prime
  let square := mul y y
  (rootOfRatio? (sub square 1) (Field25519.add (mul d square) 1)).map fun root =>
    let x := if odd then sub 0 root else root
    ⟨x, y, 1, mul x y⟩

/-- The point of 32 octets: `y`, least significant octet first, with the lowest bit of `x` on top. -/
def ofOctets? (octets : Octets.Sized 32) : Option Point :=
  ofY? (Field25519.ofOctets octets) (Octets.ofLittleEndian octets.val ≥ 1 <<< 255)

def octets (p : Point) : Octets.Sized 32 :=
  let z := inverse p.z
  Octets.Sized.ofNat 32 (mul p.y z + (mul p.x z % 2) <<< 255)

/-- The base point, whose `y` is four fifths. -/
def base : Point := (ofY? (mul 4 (inverse 5)) false).getD identity

end Point

/-! ## Signatures -/

/-- The scalar of a hash over some octets. -/
def challenge (data : Octets) : Nat := Octets.ofLittleEndian (HashFunction.hash .sha512 data) % order

/-- The public point of a secret seed. -/
def publicKey (seed : Octets.Sized 32) : Octets.Sized 32 :=
  (Point.base.multiply (clamp ((HashFunction.hash .sha512 seed.val).take 32))).octets

/-- The signature of a digest under a secret seed. -/
def sign (seed : Octets.Sized 32) (digest : Octets) : Octets.Sized 64 :=
  let expanded := HashFunction.hash .sha512 seed.val
  let secret := clamp (expanded.take 32)
  let nonce := challenge (expanded.drop 32 ++ digest)
  let point := (Point.base.multiply nonce).octets
  let k := challenge (point.val ++ (publicKey seed).val ++ digest)
  let scalar := Octets.Sized.ofNat 32 ((nonce + k * secret) % order)
  ⟨point.val ++ scalar.val, by simp [point.property, scalar.property]⟩

/-- Whether a signature by the key `key`, which `point` is the point of, is strictly valid. -/
def isValid (key : Octets.Sized 32) (point : Point) (digest : Octets) (signature : Octets.Sized 64) :
    Bool :=
  let first := Octets.resize 32 signature.val
  let scalar := Octets.ofLittleEndian (signature.val.drop 32)
  (Point.ofOctets? first).any fun r =>
    let k := challenge (first.val ++ key.val ++ digest)
    scalar < order && !r.isSmallOrder && !point.isSmallOrder &&
      ((Point.base.multiply scalar).add (point.neg.multiply k)).same r

def verify (key : Octets.Sized 32) (digest : Octets) (signature : Octets.Sized 64) :
    Except CryptoError Unit :=
  (Point.ofOctets? key).elim (.error (.invalidKeyMaterial .invalidPoint)) fun point =>
    if isValid key point digest signature then .ok () else .error .badSignature

end OpenPGP.Crypto.Ed25519
