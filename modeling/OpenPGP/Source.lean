import OpenPGP.Octets
/-!
# Byte sources

A source is what a reader will deliver, as data: pieces of octets in order,
interruptions, which are asked again, and a failure, which stays. Asking for
octets gives as many as come before the source ends or fails, and says which of
the three happened. A failure can be the complaint of the source that it was to
go on: readers that take this for an end must say so themselves.

Results:
* `octets_pull`: asking splits the octets of a source and loses none.
-/
namespace OpenPGP

/-- What a failure of a source is about. -/
inductive FailureKind where
  /-- The source has ended where it should have gone on. -/
  | unexpectedEnd
  | other
  deriving DecidableEq, Repr

/-- Why a source failed. -/
structure SourceFailure where
  kind : FailureKind
  reason : String
  deriving DecidableEq, Repr

/-- One answer of a reader. -/
inductive Delivery where
  | octets (piece : Octets)
  | interrupted
  | failed (failure : SourceFailure)
  deriving DecidableEq, Repr

/-- The answers a reader will give, in order; the source ends after the last. -/
structure Source where
  deliveries : List Delivery
  deriving DecidableEq, Repr

/-- Why asking stopped: everything asked for came, the source ended, or it failed. -/
inductive Stop where
  | full
  | ended
  | failed (failure : SourceFailure)
  deriving DecidableEq, Repr

namespace Source

/-- A source that delivers a string at once. -/
def ofOctets (octets : Octets) : Source := ⟨[.octets octets]⟩

/-- The deliveries of a string in pieces of at most `chunk` octets, each after an interruption if
`interrupted`, which also comes before the end. -/
def piecewise (octets : Octets) (chunk : Option Nat) (interrupted : Bool) : List Delivery :=
  let before := if interrupted then [Delivery.interrupted] else []
  let pieces := chunk.elim [octets] fun size => Octets.pieces size octets
  (pieces.flatMap fun piece => before ++ [Delivery.octets piece]) ++ before

/-- A source that delivers a string piecewise, failing at the first request at or after a position. -/
def delivering (octets : Octets) (chunk : Option Nat) (interrupted : Bool)
    (failure : Option (Nat × SourceFailure)) : Source :=
  match failure with
  | some (position, failure) =>
    if position ≤ octets.length then
      ⟨piecewise (octets.take position) chunk interrupted ++ [.failed failure]⟩
    else ⟨piecewise octets chunk interrupted⟩
  | none => ⟨piecewise octets chunk interrupted⟩

/-- The octets of deliveries up to the first failure. -/
def octetsOf : List Delivery → Octets
  | [] => []
  | .octets piece :: rest => piece ++ octetsOf rest
  | .interrupted :: rest => octetsOf rest
  | .failed _ :: _ => []

/-- The octets a source has left before it ends or fails. -/
def octets (s : Source) : Octets := octetsOf s.deliveries

/-- Asks for `n` octets: those that came, why asking stopped, and what is left. -/
def pullFrom : Nat → List Delivery → Octets × Stop × List Delivery
  | 0, ds => ([], .full, ds)
  | _ + 1, [] => ([], .ended, [])
  | n + 1, .interrupted :: ds => pullFrom (n + 1) ds
  | _ + 1, .failed failure :: ds => ([], .failed failure, .failed failure :: ds)
  | n + 1, .octets piece :: ds =>
    match piece.drop (n + 1) with
    | [] =>
      let (later, stop, rest) := pullFrom (n + 1 - piece.length) ds
      (piece ++ later, stop, rest)
    | left => (piece.take (n + 1), .full, .octets left :: ds)

def pull (n : Nat) (s : Source) : Octets × Stop × Source :=
  let (octets, stop, rest) := pullFrom n s.deliveries
  (octets, stop, ⟨rest⟩)

theorem octetsOf_pullFrom (n : Nat) (ds : List Delivery) :
    (pullFrom n ds).1 ++ octetsOf (pullFrom n ds).2.2 = octetsOf ds := by
  fun_induction pullFrom n ds with
  | case1 => rfl
  | case2 => rfl
  | case3 n ds ih => simpa [octetsOf] using ih
  | case4 => rfl
  | case5 n piece ds h later stop rest e ih =>
    rw [e] at ih
    simpa [octetsOf] using ih
  | case6 n piece ds h =>
    simp only [octetsOf, ← List.append_assoc]
    rw [List.take_append_drop]

theorem octets_pull (n : Nat) (s : Source) :
    (s.pull n).1 ++ (s.pull n).2.2.octets = s.octets := octetsOf_pullFrom n s.deliveries

end Source

end OpenPGP
