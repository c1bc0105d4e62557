import OpenPGP.Crypto.ChaCha20
import OpenPGP.Crypto.Keys
/-!
# Where messages are composed

Composing needs a clock and random octets. Both are here part of a state that
starts from a seed, so that a seed gives the same message every time: the clock
stands still unless it is moved, and the octets come from a seeded generator.
Recipients and signers are made from a seed as well.
-/
namespace OpenPGP

open Crypto

/-- A generator of random octets and a clock in seconds since the epoch. -/
structure Environment where
  seed : UInt64
  generator : Generator
  now : Nat
  deriving DecidableEq, Repr

namespace Environment

/-- Where every clock starts. -/
def start : UInt32 := 1700000000

def ofSeed (seed : UInt64) : Environment := ⟨seed, .ofSeed seed, start.toNat⟩

/-- Moves the clock forward. -/
def advance (e : Environment) (seconds : Nat) : Environment := { e with now := e.now + seconds }

/-- Moves the clock to a time. -/
def setTime (e : Environment) (time : Nat) : Environment := { e with now := time }

/-- The time as packets hold it; a later one is held as the latest there is. -/
def clock (e : Environment) : UInt32 := UInt32.ofNat (min e.now 0xFFFFFFFF)

/-- The next `n` random octets. -/
def random (e : Environment) (n : Nat) : Octets × Environment :=
  let (octets, generator) := e.generator.octets n
  (octets, { e with generator })

end Environment

/-! ## Identities -/

/-- The creation time of every key that is made from a seed: a day before the clocks start. -/
def Environment.keysCreated : UInt32 := Environment.start - 86400

/-- Someone who can decrypt, known by an X25519 key. -/
structure Recipient where
  key : DecryptionKey
  deriving DecidableEq

namespace Recipient

/-- The secret repeats the seed, behind a first octet that is always the same. -/
def ofSeed (seed : UInt8) : Recipient :=
  ⟨.x25519 ⟨0x40 :: List.replicate 31 seed, by simp⟩ Environment.keysCreated .encrypt⟩

end Recipient

/-- Someone who signs with an Ed25519 key. -/
structure Signer where
  seed : Octets.Sized 32
  key : VerifyingKey
  deriving DecidableEq

namespace Signer

/-- The secret repeats the seed. -/
def ofSeed (seed : UInt8) : Signer :=
  let secret : Octets.Sized 32 := ⟨List.replicate 32 seed, List.length_replicate⟩
  ⟨secret, .ed25519 (Ed25519.publicKey secret) Environment.keysCreated .signData⟩

def sign (s : Signer) (digest : Octets) : Octets.Sized 64 := Ed25519.sign s.seed digest

end Signer

end OpenPGP
