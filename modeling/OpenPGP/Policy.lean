import OpenPGP.Signature
/-!
# Policy and limits

What a reader accepts: the algorithms it may use, how far a signature may lie
in the future, how deep containers may nest and how large packets and expanded
layers may become. Anything a policy does not list is refused.

Time is what a clock of 64-bit seconds can show, on both sides of the epoch. The
sum of the clock and a tolerance may be out of this range, and is then none.

Results:
* `Instant.after?_eq_none`: when a sum is out of range.
* `Instant.isSome_after?_of_le`: a smaller tolerance keeps it in range.
-/
namespace OpenPGP

/-- The nanoseconds of a second. -/
def nanosecondsPerSecond : Nat := 1000000000

/-- The nanoseconds from the epoch to where time ends: seconds are a signed 64-bit word. -/
def endOfTime : Nat := 0x8000000000000000 * nanosecondsPerSecond

/-- A span of time: whole seconds and a rest of less than one second. -/
structure Duration where
  seconds : UInt64
  nanoseconds : Nat
  isRest : nanoseconds < nanosecondsPerSecond := by decide
  deriving DecidableEq, Repr

namespace Duration

def ofSeconds (seconds : UInt64) : Duration := ⟨seconds, 0, by decide⟩

/-- A span from seconds and any number of nanoseconds, if its seconds are still a 64-bit word. -/
def ofParts? (seconds nanoseconds : Nat) : Option Duration :=
  let whole := seconds + nanoseconds / nanosecondsPerSecond
  if whole < UInt64.size then
    some ⟨.ofNat whole, nanoseconds % nanosecondsPerSecond, Nat.mod_lt _ (by decide)⟩
  else none

/-- All of a span in nanoseconds. -/
def total (d : Duration) : Nat := d.seconds.toNat * nanosecondsPerSecond + d.nanoseconds

end Duration

/-- A point in time, in nanoseconds since the epoch: those whose seconds are a signed 64-bit word. -/
structure Instant where
  nanoseconds : Int
  inRange : -endOfTime ≤ nanoseconds ∧ nanoseconds < endOfTime
  deriving DecidableEq, Repr

namespace Instant

/-- Seconds since the epoch, as packets hold them. -/
def ofSeconds (seconds : UInt32) : Instant where
  nanoseconds := seconds.toNat * nanosecondsPerSecond
  inRange := by
    have := seconds.toNat_lt
    simp only [endOfTime, nanosecondsPerSecond]
    omega

/-- The point in time a span later, if there is one. -/
def after? (i : Instant) (d : Duration) : Option Instant :=
  let sum := i.nanoseconds + d.total
  if h : sum < endOfTime then
    some ⟨sum, by have := i.inRange; omega, h⟩
  else none

/-- The complaint about a sum that is out of range. -/
def overflowMessage : String := "overflow when adding duration to instant"

instance : LE Instant := ⟨fun i j => i.nanoseconds ≤ j.nanoseconds⟩
instance : LT Instant := ⟨fun i j => i.nanoseconds < j.nanoseconds⟩

instance (i j : Instant) : Decidable (i ≤ j) := Int.decLe i.nanoseconds j.nanoseconds
instance (i j : Instant) : Decidable (i < j) := Int.decLt i.nanoseconds j.nanoseconds

theorem le_def {i j : Instant} : i ≤ j ↔ i.nanoseconds ≤ j.nanoseconds := Iff.rfl

theorem after?_eq_none {i : Instant} {d : Duration} :
    i.after? d = none ↔ endOfTime ≤ i.nanoseconds + d.total := by
  simp [after?]

theorem after?_eq_some {i j : Instant} {d : Duration} :
    i.after? d = some j ↔ j.nanoseconds = i.nanoseconds + d.total := by
  have := j.inRange
  obtain ⟨n, hn⟩ := j
  simp only [after?, Option.dite_none_right_eq_some, Option.some.injEq, mk.injEq]
  constructor
  · rintro ⟨-, rfl⟩
    rfl
  · rintro rfl
    exact ⟨hn.2, rfl⟩

theorem le_of_after? {i j : Instant} {d : Duration} (h : i.after? d = some j) : i ≤ j := by
  rw [after?_eq_some] at h
  rw [le_def]
  omega

theorem isSome_after?_of_le {i : Instant} {d d' : Duration} (hd : d.total ≤ d'.total)
    (h : (i.after? d').isSome) : (i.after? d).isSome := by
  rw [Option.isSome_iff_ne_none, Ne, after?_eq_none] at h ⊢
  omega

end Instant

/-- The algorithms that may be used and the tolerance for clocks that run ahead. -/
structure Policy where
  /-- Ciphers of encrypted data. -/
  symmetric : List SymmetricAlgorithm
  /-- Modes of version 2 encrypted data. -/
  aead : List AeadAlgorithm
  /-- Hashes of signatures. -/
  signatureHash : List HashAlgorithm
  /-- Algorithms of decryption and signing keys. -/
  publicKey : List PublicKeyAlgorithm
  compression : List CompressionAlgorithm
  /-- How far in the future a signature may have been made. -/
  clockSkew : Duration
  deriving DecidableEq, Repr

namespace Policy

/-- Accepts what is implemented and not broken, and a minute of clock skew. -/
def standard : Policy where
  symmetric := [.aes128, .aes192, .aes256]
  aead := [.eax, .ocb, .gcm]
  signatureHash := [.sha224, .sha256, .sha384, .sha512]
  publicKey := [.ed25519, .x25519]
  compression := [.uncompressed, .zip, .zlib]
  clockSkew := .ofSeconds 60

def acceptsSymmetric (p : Policy) (a : SymmetricAlgorithm) : Bool := a ∈ p.symmetric
def acceptsAead (p : Policy) (a : AeadAlgorithm) : Bool := a ∈ p.aead
def acceptsHash (p : Policy) (a : HashAlgorithm) : Bool := a ∈ p.signatureHash
def acceptsPublicKey (p : Policy) (a : PublicKeyAlgorithm) : Bool := a ∈ p.publicKey
def acceptsCompression (p : Policy) (a : CompressionAlgorithm) : Bool := a ∈ p.compression

/-- Whether a signature was made by `now`, give or take the skew; one without a creation time was not.
There is no answer if the sum of the clock and the skew is out of range. -/
def isCreatedInPast? (p : Policy) (s : Signature) (now : Instant) : Option Bool :=
  match s.creationTime with
  | some created => (now.after? p.clockSkew).map fun latest => decide (Instant.ofSeconds created ≤ latest)
  | none => some false

end Policy

/-- Whether a signature's validity period, if it has one above zero, is not over. -/
def Signature.isNotExpired (s : Signature) (now : Instant) : Bool :=
  match s.creationTime, s.expirationTime with
  | some created, some lifetime =>
    lifetime = 0 || now.nanoseconds < (created.toNat + lifetime.toNat) * nanosecondsPerSecond
  | _, _ => true

/-- The limits and the policy under which one message is read. -/
structure Restrictions where
  /-- The greatest number of containers inside each other. -/
  nestingDepth : Nat
  /-- The greatest length of a packet body. -/
  packetLength : UInt64
  /-- The greatest length of an expanded layer. -/
  decompressedLength : UInt64
  policy : Policy
  deriving DecidableEq, Repr

/-- Sixteen layers, packets up to 512 MiB, layers up to 1 GiB. -/
def Restrictions.standard : Restrictions where
  nestingDepth := 16
  packetLength := 512 * 1024 * 1024
  decompressedLength := 1024 * 1024 * 1024
  policy := .standard

end OpenPGP
