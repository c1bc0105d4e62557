import OpenPGP.Crypto.Curve.Field25519
/-!
# X25519

Scalar multiplication on the Montgomery form of the curve, by the coordinate
`u` alone.
-/
namespace OpenPGP.Crypto.X25519

open Field25519

/-- Two multiples of a point that differ by the point, as fractions. -/
structure Ladder where
  x2 : Nat
  z2 : Nat
  x3 : Nat
  z3 : Nat

/-- Doubles the first multiple and adds the second to it. -/
def Ladder.advance (u : Nat) (l : Ladder) : Ladder :=
  let a := add l.x2 l.z2
  let b := sub l.x2 l.z2
  let aa := mul a a
  let bb := mul b b
  let e := sub aa bb
  let da := mul (sub l.x3 l.z3) a
  let cb := mul (add l.x3 l.z3) b
  let sum := add da cb
  let difference := sub da cb
  { x2 := mul aa bb
    z2 := mul e (add aa (mul 121665 e))
    x3 := mul sum sum
    z3 := mul u (mul difference difference) }

def Ladder.swap (l : Ladder) : Ladder := ⟨l.x3, l.z3, l.x2, l.z2⟩

/-- The ladder over the lowest `bits` bits of a scalar, highest first. -/
def ladder (u scalar : Nat) : (bits : Nat) → Ladder → Ladder
  | 0, l => l
  | bits + 1, l =>
    let l := if scalar.testBit bits then (l.swap.advance u).swap else l.advance u
    ladder u scalar bits l

/-- The `u` of a multiple of the point with a given `u`. -/
def multiply (scalar u : Nat) : Nat :=
  let l := ladder u scalar 255 ⟨1, 0, u, 1⟩
  mul l.x2 (inverse l.z2)

/-- The shared secret of a secret scalar and a public point. -/
def shared (secret public' : Octets.Sized 32) : Octets.Sized 32 :=
  Octets.Sized.ofNat 32 (multiply (clamp secret.val) (ofOctets public'))

/-- The public point of a secret scalar. -/
def publicKey (secret : Octets.Sized 32) : Octets.Sized 32 :=
  Octets.Sized.ofNat 32 (multiply (clamp secret.val) 9)

end OpenPGP.Crypto.X25519
