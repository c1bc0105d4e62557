import OpenPGP.Algorithm
import OpenPGP.Field
/-!
# String-to-key specifiers

How a passphrase becomes a key: one hash, a salted hash, a salted hash over a
coded number of octets, or Argon2id. `Specifier.field` reads the wire form and
`Specifier.encode` writes it; a type that is not known swallows what is left.
Deriving the key is `OpenPGP.Crypto.Passphrase`.
-/
namespace OpenPGP

/-- A string-to-key specifier. -/
inductive Specifier where
  | simple (hash : HashAlgorithm)
  | salted (hash : HashAlgorithm) (salt : Octets.Sized 8)
  | iterated (hash : HashAlgorithm) (salt : Octets.Sized 8) (count : UInt8)
  | argon2 (salt : Octets.Sized 16) (passes parallelism memoryExponent : UInt8)
  | unknown (kind : UInt8) (parameters : Octets)
  deriving DecidableEq

namespace Specifier

/-- The type octet. -/
def kind : Specifier → UInt8
  | simple .. => 0
  | salted .. => 1
  | iterated .. => 3
  | argon2 .. => 4
  | unknown kind _ => kind

/-- The number of octets a coded count stands for: sixteen plus the low four bits, shifted left by
six plus the high four. -/
def decodeCount (coded : UInt8) : Nat := (16 + coded.toNat % 16) <<< (coded.toNat / 16 + 6)

def field : Field Specifier := do
  match ← Field.octet with
  | 0 => return simple (.ofCode (← Field.octet))
  | 1 =>
    let hash ← Field.octet
    return salted (.ofCode hash) (← Field.sized 8)
  | 3 =>
    let hash ← Field.octet
    let salt ← Field.sized 8
    return iterated (.ofCode hash) salt (← Field.octet)
  | 4 =>
    let salt ← Field.sized 16
    let passes ← Field.octet
    let parallelism ← Field.octet
    return argon2 salt passes parallelism (← Field.octet)
  | kind => return unknown kind (← Field.rest)

def encode : Specifier → Octets
  | simple hash => [0, hash.code]
  | salted hash salt => [1, hash.code] ++ salt.val
  | iterated hash salt count => [3, hash.code] ++ salt.val ++ [count]
  | argon2 salt passes parallelism memoryExponent =>
    [4] ++ salt.val ++ [passes, parallelism, memoryExponent]
  | unknown kind parameters => kind :: parameters

end Specifier

end OpenPGP
