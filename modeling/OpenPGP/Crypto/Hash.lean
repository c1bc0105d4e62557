import OpenPGP.Crypto.Error
import OpenPGP.Crypto.Hash.Sha1
import OpenPGP.Crypto.Hash.Sha256
import OpenPGP.Crypto.Hash.Sha512
/-!
# Hash functions

The implemented hashes behind one type. `Hasher` is a computation of any of
them; `SignatureHasher` hashes signed data the way the type of its signature
asks: as it is, or, for text, with every line ended by CR LF. Text comes in
pieces of any sizes; of what came before, only whether it ended in CR is kept.
-/
namespace OpenPGP.Crypto

/-- An implemented hash. -/
inductive HashFunction where
  | sha1 | sha224 | sha256 | sha384 | sha512
  deriving DecidableEq, Repr

namespace HashFunction

/-- The implementation of an identifier. -/
def ofAlgorithm? : HashAlgorithm → Option HashFunction
  | .sha1 => some sha1
  | .sha224 => some sha224
  | .sha256 => some sha256
  | .sha384 => some sha384
  | .sha512 => some sha512
  | _ => none

def algorithm : HashFunction → HashAlgorithm
  | sha1 => .sha1
  | sha224 => .sha224
  | sha256 => .sha256
  | sha384 => .sha384
  | sha512 => .sha512

/-- The chaining state. -/
abbrev State : HashFunction → Type
  | sha1 => Sha1.State
  | sha224 | sha256 => Sha256.State
  | sha384 | sha512 => Sha512.State

def design : (f : HashFunction) → BlockHash f.State
  | sha1 => Sha1.sha1
  | sha224 => Sha256.sha224
  | sha256 => Sha256.sha256
  | sha384 => Sha512.sha384
  | sha512 => Sha512.sha512

def hash (f : HashFunction) (data : Octets) : Octets := f.design.hash data

end HashFunction

/-! ## Computations -/

/-- A computation of an implemented hash. -/
structure Hasher where
  function : HashFunction
  context : HashContext function.State

namespace Hasher

def initial (f : HashFunction) : Hasher := ⟨f, f.design.initial⟩

def ofAlgorithm (a : HashAlgorithm) : Except CryptoError Hasher :=
  match HashFunction.ofAlgorithm? a with
  | some f => .ok (initial f)
  | none => .error (.unsupported (.hash a))

def update (h : Hasher) (data : Octets) : Hasher :=
  { h with context := h.function.design.update h.context data }

def finish (h : Hasher) : Octets := h.function.design.finish h.context

end Hasher

/-! ## Signed data -/

/-- Hashes signed data as the type of its signature asks. -/
structure SignatureHasher where
  inner : Hasher
  text : Bool
  afterCr : Bool

namespace SignatureHasher

def initial (inner : Hasher) (type : SignatureType) : SignatureHasher :=
  ⟨inner, type = .text, false⟩

def algorithm (h : SignatureHasher) : HashAlgorithm := h.inner.function.algorithm

/-- Feeds a piece of text. Of the octets not fed yet, `unfed`, the first `seen` were looked at and the
`rest` was not. An LF that has no CR is fed as CR LF behind what was looked at before it. -/
def feedText (h : SignatureHasher) (unfed : Octets) (seen : Nat) : (rest : Octets) → SignatureHasher
  | [] => { h with inner := h.inner.update unfed }
  | b :: rest =>
    if b = 0x0A && !h.afterCr then
      feedText { h with inner := (h.inner.update (unfed.take seen)).update [0x0D, 0x0A]
                        afterCr := b = 0x0D } rest 0 rest
    else feedText { h with afterCr := b = 0x0D } unfed (seen + 1) rest

def update (h : SignatureHasher) (data : Octets) : SignatureHasher :=
  if h.text then h.feedText data 0 data else { h with inner := h.inner.update data }

/-- The digest of everything seen and a trailer. -/
def finish (h : SignatureHasher) (trailer : Octets) : Octets := (h.inner.update trailer).finish

def describe (h : SignatureHasher) : String :=
  s!"SignatureHasher \x7b algorithm: {h.algorithm.identifier}, text: {h.text}, .. \x7d"

end SignatureHasher

end OpenPGP.Crypto
