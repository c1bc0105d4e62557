import OpenPGP.Octets
/-!
# The field of 2^255 - 19 elements

Elements are numbers below the prime. Every operation reduces its result.
-/
namespace OpenPGP.Crypto.Field25519

def prime : Nat := (1 <<< 255) - 19

def add (a b : Nat) : Nat := (a + b) % prime

def sub (a b : Nat) : Nat := (a + (prime - b % prime)) % prime

def mul (a b : Nat) : Nat := a * b % prime

/-- Powers by squaring. -/
def pow (a e : Nat) : Nat :=
  if _done : e = 0 then 1
  else
    let half := pow (mul a a) (e / 2)
    if e % 2 = 0 then half else mul half a
termination_by e
decreasing_by omega

/-- The inverse of an element, and zero for zero. -/
def inverse (a : Nat) : Nat := pow a (prime - 2)

/-- A square root of minus one. -/
def rootOfMinusOne : Nat := pow 2 ((prime - 1) / 4)

/-- The even square root of `u / v`, if there is one. -/
def rootOfRatio? (u v : Nat) : Option Nat :=
  let v3 := mul (mul v v) v
  let v7 := mul (mul v3 v3) v
  let root := mul (mul u v3) (pow (mul u v7) ((prime - 5) / 8))
  let square := mul v (mul root root)
  let even (r : Nat) := if r % 2 = 0 then r else sub 0 r
  if square = u % prime then some (even root)
  else if square = sub 0 u then some (even (mul root rootOfMinusOne))
  else none

/-- The number of 32 octets, least significant first, without its highest bit. -/
def ofOctets (octets : Octets.Sized 32) : Nat := Octets.ofLittleEndian octets.val % (1 <<< 255)

/-- The secret scalar of 32 octets: a multiple of eight with bit 254 set and bit 255 clear. -/
def clamp (octets : Octets) : Nat :=
  let n := Octets.ofLittleEndian octets % (1 <<< 254)
  (1 <<< 254) + (n - n % 8)

end OpenPGP.Crypto.Field25519
