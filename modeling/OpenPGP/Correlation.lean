import OpenPGP.Metadata
/-!
# Signatures and the data they cover

A one-pass signature in front of the data opens an obligation: the data is
hashed as it is read, and the signature behind it settles the obligation opened
last. A signature in front of the data with no announcement is hashed likewise
and settled when the message it belongs to ends.
-/
namespace OpenPGP

open Crypto

/-- A one-pass signature whose signature has not come yet. -/
structure Obligation where
  announcement : OnePassSignature
  hasher : Option SignatureHasher
  /-- The path of the container it stood in. -/
  position : List Nat

/-- A signature that came before its data. -/
structure PrecedingSignature where
  signature : Signature
  hasher : Option SignatureHasher
  position : List Nat
  /-- The number of containers around the message it belongs to. -/
  depth : Nat

/-- The signatures of a message that are not settled. -/
structure Correlation where
  /-- Open obligations, the last opened first. -/
  pending : List Obligation
  /-- Preceding signatures, in message order. -/
  preceding : List PrecedingSignature

namespace Correlation

def empty : Correlation := ⟨[], []⟩

/-- Opens the obligation of a one-pass signature. -/
def announce (c : Correlation) (announcement : OnePassSignature) (position : List Nat) : Correlation :=
  let hasher := SignatureHasher.begin? announcement.hashAlgorithm announcement.type
  { c with pending := ⟨announcement, hasher, position⟩ :: c.pending }

/-- Registers a signature in front of the data. -/
def precede (c : Correlation) (signature : Signature) (position : List Nat) (depth : Nat) :
    Correlation :=
  let hasher := SignatureHasher.begin? signature.hashAlgorithm signature.type
  { c with preceding := c.preceding ++ [⟨signature, hasher, position, depth⟩] }

/-- Feeds data to every signature that covers it. -/
def update (c : Correlation) (data : Octets) : Correlation where
  pending := c.pending.map fun o => { o with hasher := o.hasher.map (·.update data) }
  preceding := c.preceding.map fun p => { p with hasher := p.hasher.map (·.update data) }

/-- Settles the obligation opened last with its signature. -/
def settle (c : Correlation) (v : VerificationContext) (signature : Signature) :
    Option (List Nat × SignatureVerification) × Correlation :=
  match c.pending with
  | [] => (none, c)
  | o :: pending =>
    (some (o.position, v.verify signature o.hasher (some o.announcement) .onePass),
      { c with pending })

/-- Settles the preceding signatures of messages at a depth or deeper. -/
def settlePreceding (c : Correlation) (v : VerificationContext) (depth : Nat) :
    List (List Nat × SignatureVerification) × Correlation :=
  let isOuter (p : PrecedingSignature) : Bool := p.depth < depth
  ((c.preceding.dropWhile isOuter).map fun p =>
      (p.position, v.verify p.signature p.hasher none .preceding),
    { c with preceding := c.preceding.takeWhile isOuter })

end Correlation

end OpenPGP
