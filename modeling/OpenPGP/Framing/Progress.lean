import OpenPGP.Framing
/-!
# Reading makes progress

Nothing that reads off a source puts octets back, and a packet takes at least
its first octet. Readers are put together from requests to the source; a property
that requests have and sequences keep is one of every reader (`Framed.Compositional`),
and leaving no more octets than there were is such a property.

Results:
* `Framed.Compositional.header`, `Framed.Compositional.parts`: readers have what their parts have.
* `PacketReader.length_next_lt`: after a packet, fewer octets are left.
-/
namespace OpenPGP

/-- Whether a failure is about a size: that of a body, or of the limit on bodies. -/
def PacketError.IsAboutSize : PacketError → Prop
  | tooLarge .. | overflow => True
  | _ => False

namespace Framed

/-! ## Properties of readers -/

/-- What a failure of the source is reported as: as it is, or inside a body as an end that came too early. -/
def IsReport (failure : SourceFailure) (e : PacketError) : Prop :=
  e = .unreadable failure ∨ failure.kind = .unexpectedEnd ∧ e = .truncated .packetBody

/-- A property that sequences of reads keep, that a read has which reports failures of the source, and that
failures have unless they are about a size. -/
structure Compositional (P : (α : Type) → Framed α → Prop) : Prop where
  pure {α : Type} (a : α) : P α (Pure.pure a)
  throw {α : Type} {e : PacketError} (h : ¬ e.IsAboutSize) : P α (MonadExcept.throw e)
  bind {α β : Type} {m : Framed α} {f : α → Framed β} (hm : P α m) (hf : ∀ a, P β (f a)) : P β (m >>= f)
  pull_bind {α : Type} (n : Nat) {f : Octets × Stop → Framed α}
    (hfail : ∀ octets failure, ∃ e, IsReport failure e ∧ f (octets, .failed failure) = MonadExcept.throw e)
    (hf : ∀ answer, P α (f answer)) : P α (pull n >>= f)

namespace Compositional

variable {P : (α : Type) → Framed α → Prop} (h : Compositional P)

include h

theorem octet? : P _ Framed.octet? := by
  refine h.pull_bind 1 (fun _ _ => ⟨_, .inl rfl, rfl⟩) fun answer => ?_
  split
  · exact h.throw nofun
  · exact h.pure _
  · exact h.pure _

theorem octet (part : Part) : P _ (Framed.octet part) := by
  refine h.bind h.octet? fun answer => ?_
  split
  · exact h.pure _
  · exact h.throw nofun

theorem exactly (n : Nat) : P _ (Framed.exactly n .packetBody) := by
  refine h.pull_bind n (fun _ failure => ⟨_, ?_, rfl⟩) fun answer => ?_
  · split
    · next hkind => exact .inr ⟨hkind, rfl⟩
    · exact .inl rfl
  split
  · exact h.pure _
  · exact h.throw nofun
  · refine h.throw ?_
    split <;> exact nofun

theorem upTo (n : Nat) : P _ (Framed.upTo n) := by
  refine h.pull_bind n (fun _ _ => ⟨_, .inl rfl, rfl⟩) fun answer => ?_
  split
  · exact h.throw nofun
  · exact h.pure _

theorem fixedWidth (width value : Nat) : P _ (BodyLength.fixedWidth width value) := by
  induction width generalizing value with
  | zero => exact h.pure _
  | succ width ih => exact h.bind (h.octet _) fun _ => ih _

theorem newFormat : P _ BodyLength.newFormat := by
  refine h.bind (h.octet _) fun b => ?_
  dsimp only
  split
  · exact h.pure _
  split
  · exact h.bind (h.octet _) fun _ => h.pure _
  split
  · exact h.pure _
  · exact h.bind (h.fixedWidth _ _) fun _ => h.pure _

theorem oldFormat (type : UInt8) : P _ (BodyLength.oldFormat type) := by
  unfold BodyLength.oldFormat
  split
  · exact h.bind (h.fixedWidth _ _) fun _ => h.pure _
  · exact h.bind (h.fixedWidth _ _) fun _ => h.pure _
  · exact h.bind (h.fixedWidth _ _) fun _ => h.pure _
  · exact h.pure _

theorem ofFirst (first : UInt8) : P _ (PacketHeader.ofFirst first) := by
  have hchecked (header : PacketHeader) : P _ header.checked := by
    unfold PacketHeader.checked
    split
    · exact h.throw nofun
    · exact h.pure _
  unfold PacketHeader.ofFirst
  split
  · exact h.throw nofun
  split
  · exact h.bind (h.bind (h.oldFormat _) fun _ => h.pure _) hchecked
  · refine h.bind (h.bind h.newFormat fun length => ?_) hchecked
    split
    · exact h.throw nofun
    · exact h.pure _

theorem header : P _ PacketHeader.read := by
  refine h.bind h.octet? fun first => ?_
  split
  · exact h.pure _
  · exact h.bind (h.ofFirst _) fun _ => h.pure _

/-! Bodies are refused for their size. -/

variable (hsize : ∀ e : PacketError, e.IsAboutSize → P Octets (MonadExcept.throw e))

include hsize

theorem chunk (limit : UInt64) (before length : Nat) : P _ (PacketBody.chunk limit before length) := by
  unfold PacketBody.chunk
  split
  · exact hsize _ trivial
  · exact h.exactly _

theorem parts (limit : UInt64) (size : Nat) (before : Octets) (length : Nat) :
    P _ (PacketBody.parts limit size before length) := by
  induction size generalizing before length with
  | zero => exact h.throw nofun
  | succ size ih =>
    refine h.bind (h.chunk hsize _ _ _) fun _ => h.bind h.newFormat fun l => ?_
    split
    · exact ih _ _
    · exact h.bind (h.chunk hsize _ _ _) fun _ => h.pure _
    · exact h.pure _

theorem rest (limit : UInt64) : P _ (PacketBody.rest limit) := by
  unfold PacketBody.rest
  split
  · exact hsize _ trivial
  refine h.bind (h.upTo _) fun body => ?_
  split
  · exact hsize _ trivial
  · exact h.pure _

end Compositional

/-! ## Progress -/

/-- A reader that leaves no more octets than it found. -/
def Shrinking {α : Type} (m : Framed α) : Prop :=
  ∀ s a s', m s = .ok a s' → s'.octets.length ≤ s.octets.length

theorem shrinking_pure {α : Type} (a : α) : Shrinking (pure a) := by
  intro s b s' h
  cases h
  exact Nat.le_refl _

theorem shrinking_throw {α : Type} (e : PacketError) : Shrinking (throw e : Framed α) := by
  intro s b s' h
  cases h

theorem Shrinking.bind {α β : Type} {m : Framed α} {f : α → Framed β} (hm : Shrinking m)
    (hf : ∀ a, Shrinking (f a)) : Shrinking (m >>= f) := by
  intro s b s' h
  simp only [Bind.bind, EStateM.bind] at h
  split at h
  · next a s₁ e => exact Nat.le_trans (hf a _ _ _ h) (hm _ _ _ e)
  · cases h

theorem length_pull (n : Nat) (s : Source) :
    (s.pull n).1.length + (s.pull n).2.2.octets.length = s.octets.length := by
  rw [← List.length_append, Source.octets_pull]

theorem pull_eq {n : Nat} {s s' : Source} {r : Octets × Stop} (h : pull n s = .ok r s') :
    r.1.length + s'.octets.length = s.octets.length := by
  have := length_pull n s
  unfold pull at h
  split at h
  next octets stop rest e => rw [e] at this; cases h; exact this

theorem shrinking_pull (n : Nat) : Shrinking (pull n) := by
  intro s r s' h
  have := pull_eq h
  omega

theorem octet?_eq {s s' : Source} {b : UInt8} (h : octet? s = .ok (some b) s') :
    s'.octets.length < s.octets.length := by
  simp only [octet?, Bind.bind, EStateM.bind] at h
  split at h
  · next r s₁ e =>
    have := pull_eq e
    split at h
    · cases h
    · cases h
    · cases h
      simp only [List.length_cons] at this
      omega
  · cases h

theorem compositional_shrinking : Compositional @Shrinking where
  pure := shrinking_pure
  throw _ := shrinking_throw _
  bind := Shrinking.bind
  pull_bind n _ _ hf := (shrinking_pull n).bind hf

end Framed

open Framed

theorem PacketBody.shrinking_chunk (limit : UInt64) (before length : Nat) :
    Shrinking (chunk limit before length) :=
  compositional_shrinking.chunk (fun _ _ => shrinking_throw _) limit before length

theorem PacketBody.shrinking_read (limit : UInt64) (length : BodyLength) :
    Shrinking (read limit length) := by
  unfold read
  split
  · exact shrinking_chunk _ _ _
  · intro s a s' h
    exact compositional_shrinking.parts (fun _ _ => shrinking_throw _) _ _ _ _ _ _ _ h
  · exact compositional_shrinking.rest (fun _ _ => shrinking_throw _) limit

theorem PacketHeader.length_read_lt {s s' : Source} {header : PacketHeader}
    (h : read s = .ok (some header) s') : s'.octets.length < s.octets.length := by
  simp only [read, Bind.bind, EStateM.bind] at h
  split at h
  · next r s₁ e =>
    cases r with
    | none => cases h
    | some first =>
      refine Nat.lt_of_le_of_lt ?_ (octet?_eq e)
      exact ((compositional_shrinking.ofFirst first).bind fun header => shrinking_pure (some header)) _ _ _ h
  · cases h

theorem PacketReader.length_packet_lt {limit : UInt64} {s s' : Source} {p : Packet}
    (h : packet limit s = .ok (some p) s') : s'.octets.length < s.octets.length := by
  simp only [packet, Bind.bind, EStateM.bind] at h
  split at h
  · next r s₁ e =>
    cases r with
    | none => cases h
    | some header =>
      refine Nat.lt_of_le_of_lt ?_ (PacketHeader.length_read_lt e)
      refine ((PacketBody.shrinking_read limit header.length).bind fun body => ?_) _ _ _ h
      split
      · exact shrinking_pure _
      · exact shrinking_throw _
  · cases h

theorem PacketReader.length_next_lt {r : PacketReader} {p : Packet} (h : r.next.1 = .ok (some p)) :
    r.next.2.source.octets.length < r.source.octets.length := by
  unfold next at h ⊢
  split at h
  · next packet source e =>
    simp only at h ⊢
    cases h
    exact length_packet_lt e
  · cases h

end OpenPGP
