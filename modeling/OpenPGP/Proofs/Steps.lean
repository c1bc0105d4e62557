import OpenPGP.Proofs.Outcome
import OpenPGP.Proofs.Reading
import OpenPGP.Proofs.Requirements
/-!
# What a step of a reader does

`MessageReader.step` is a nest of choices; here they are said once. `ReadingState`
is what a reader holds, `Step` has one constructor for each thing that can happen
to it, with everything the reader checked on the way. Whatever holds of all
states is proved over `Step` and never opens the reader again.

Results:
* `MessageReader.step_of_eq_some`: what a successful step did.
* `MessageReader.step_of_next_none`, `MessageReader.step_of_next_some`: which step is taken.
* `MessageReader.step_eq_none_iff`: there is nothing left to do when every layer has ended.
* `MessageReader.step_of_frames_eq`: when two readers step alike.
* `MessageReader.step_eq_error`: what a step fails at.
-/
namespace OpenPGP

/-- What a reader holds while it reads. -/
@[ext]
structure ReadingState where
  /-- The open layers, innermost first. -/
  frames : List Frame
  correlation : Correlation
  metadata : MetadataBuilder
  /-- Literal data that was not given out yet. -/
  literal : Octets

/-- The innermost layer after a packet was taken that its automaton accepts. -/
structure Frame.Takes (f : Frame) (p : Packet) (f' : Frame) : Prop where
  kind : f'.kind = f.kind
  next : f.source.next = .ok (some (p, f'.source))
  accepted : ∃ s, p.symbol? = some s ∧ f.automaton.next s = (.ok (), f'.automaton)
  keys : f'.keyPackets = f.keyPackets

theorem Configuration.next?_unexpectedPacket (c : Configuration) :
    c.next? .unexpectedPacket = none := by
  obtain ⟨state, stack⟩ := c
  cases stack with
  | nil => rfl
  | cons top below => cases state <;> cases top <;> rfl

/-- A layer ends where its source does, if its automaton accepts the end. -/
structure Frame.Ends (f : Frame) : Prop where
  next : f.source.next = .ok none
  accepted : ∃ a, f.automaton.next .endOfSequence = (.ok (), a)

/-- The kind of the layer that a container holds. -/
def Layer.kind? : Layer → Option LayerKind
  | encryption _ => some .encrypted
  | compression _ => some .compressed
  | literal _ | signature _ => none

/-- What one step does to a state. -/
inductive Step (o : ReadingContext) : ReadingState → ReadingState → Prop
  /-- A packet without a symbol is passed over. -/
  | pass {f : Frame} {outer : List Frame} {c : Correlation} {m : MetadataBuilder} {l : Octets}
      {p : Packet} {source : PacketSource} (hn : f.source.next = .ok (some (p, source)))
      (hp : p.symbol? = none) : Step o ⟨f :: outer, c, m, l⟩ ⟨{ f with source } :: outer, c, m, l⟩
  | key {f f' : Frame} {outer : List Frame} {c : Correlation} {m : MetadataBuilder} {l : Octets}
      {k : KeyPacket} (h : f.Takes k.packet f') :
      Step o ⟨f :: outer, c, m, l⟩ ⟨f'.addKeyPacket k :: outer, c, m, l⟩
  | announce {f f' : Frame} {outer : List Frame} {c : Correlation} {m : MetadataBuilder} {l : Octets}
      {a : OnePassSignature} (h : f.Takes (.onePassSignature a) f') :
      Step o ⟨f :: outer, c, m, l⟩ ⟨f' :: outer, c.announce a m.position, m, l⟩
  | precede {f f' : Frame} {outer : List Frame} {c : Correlation} {m : MetadataBuilder} {l : Octets}
      {s : Signature} (h : f.Takes (.signature s) f') (hb : f.isBeforeData = true) :
      Step o ⟨f :: outer, c, m, l⟩ ⟨f' :: outer, c.precede s m.position outer.length, m, l⟩
  | settle {f f' : Frame} {outer : List Frame} {c : Correlation} {m : MetadataBuilder} {l : Octets}
      {s : Signature} {obligation : Obligation} {pending : List Obligation}
      (h : f.Takes (.signature s) f') (hb : f.isBeforeData = false)
      (hc : c.pending = obligation :: pending)
      (hv : (o.verifier.verify s obligation.hasher (some obligation.announcement) .onePass).hasOverflowed =
        false) : Step o ⟨f :: outer, c, m, l⟩
        ⟨f' :: outer, { c with pending }, m.recordAt obligation.position (.signature
          (o.verifier.verify s obligation.hasher (some obligation.announcement) .onePass)), l⟩
  /-- A signature behind the data that nothing announced. -/
  | unannounced {f f' : Frame} {outer : List Frame} {c : Correlation} {m : MetadataBuilder}
      {l : Octets} {s : Signature} (h : f.Takes (.signature s) f') (hb : f.isBeforeData = false)
      (hc : c.pending = []) : Step o ⟨f :: outer, c, m, l⟩ ⟨f' :: outer, c, m, l⟩
  | literal {f f' : Frame} {outer : List Frame} {c : Correlation} {m : MetadataBuilder} {l : Octets}
      {p : LiteralData} (h : f.Takes (.literalData p) f') :
      Step o ⟨f :: outer, c, m, l⟩ ⟨f' :: outer, c, m.record (.literal (.ofPacket p)), p.body⟩
  /-- A container opens; the key packets in front of it may be used up. -/
  | enter {f f' : Frame} {outer : List Frame} {c : Correlation} {m : MetadataBuilder} {l : Octets}
      {d : Packet} {layer : Layer} {content : Octets} {kind : LayerKind} {keys : List KeyPacket}
      (h : f.Takes d f') (ho : Opens o f.keyPackets d layer content) (hk : layer.kind? = some kind) :
      Step o ⟨f :: outer, c, m, l⟩
        ⟨Frame.ofContent kind content o.restrictions.packetLength ::
          { f' with keyPackets := keys } :: outer, c, m.record layer, l⟩
  | leave {f : Frame} {outer : List Frame} {c : Correlation} {m : MetadataBuilder} {l : Octets}
      (h : f.Ends)
      (hv : ∀ x ∈ (c.settlePreceding o.verifier outer.length).1, x.2.hasOverflowed = false) :
      Step o ⟨f :: outer, c, m, l⟩
        ⟨outer, (c.settlePreceding o.verifier outer.length).2,
          let m := (c.settlePreceding o.verifier outer.length).1.foldl
            (fun m x => m.recordAt x.1 (.signature x.2)) m
          if f.kind = .message then m else m.close, l⟩

/-- Whether reading gave up: the check of a signature came to no result. -/
def MessageError.IsOverflow (e : MessageError) : Prop := e = overflow

namespace MessageReader

variable {o : ReadingContext}

def state (r : MessageReader o) : ReadingState := ⟨r.frames, r.correlation, r.metadata, r.literal⟩

/-- Whether two readers have come equally far in what the caller is told. -/
def SameStatus (r r' : MessageReader o) : Prop :=
  r'.poisoned = r.poisoned ∧ r'.finished = r.finished

theorem enterCompressed_eq_ok {r r' : MessageReader o} {packet : CompressedData} {frame : Frame}
    {outer : List Frame} (e : r.enterCompressed packet frame outer = .ok r') :
    r.SameStatus r' ∧ ∃ content, Opens o frame.keyPackets (.compressedData packet)
        (.compression packet.algorithm) content ∧
      r'.state = ⟨Frame.ofContent .compressed content o.restrictions.packetLength :: frame :: outer,
        r.correlation, r.metadata.record (.compression packet.algorithm), r.literal⟩ := by
  unfold enterCompressed at e
  split at e
  · split at e
    · cases e
    · next hp =>
      split at e
      · cases e
      · next content hd =>
        cases e
        exact ⟨⟨rfl, rfl⟩, content, .compressed (by simpa using hp) hd, rfl⟩
  · cases e

theorem enterEncrypted_eq_ok {r r' : MessageReader o} {data : EncryptedData} {frame : Frame}
    {outer : List Frame} (e : r.enterEncrypted data frame outer = .ok r') :
    r.SameStatus r' ∧ ∃ layer content, Opens o frame.keyPackets (.encryptedData data) layer content ∧
      r'.state = ⟨Frame.ofContent .encrypted content o.restrictions.packetLength ::
        { frame with keyPackets := [] } :: outer, r.correlation, r.metadata.record layer, r.literal⟩ := by
  unfold enterEncrypted at e
  split at e
  · split at e
    · cases e
    · next integrity hi =>
      split at e
      · cases e
      · next resolved hr =>
        cases e
        exact ⟨⟨rfl, rfl⟩, _, _, .encrypted hi hr, rfl⟩
  · cases e

/-- Settling a signature takes the obligation opened last, if there is one. -/
theorem settleSignature_eq_ok {r r' : MessageReader o} {s : Signature}
    (e : r.settleSignature s = .ok r') : (r.correlation.pending = [] ∧ r' = r) ∨
      ∃ obligation pending, r.correlation.pending = obligation :: pending ∧
        (o.verifier.verify s obligation.hasher (some obligation.announcement) .onePass).hasOverflowed =
          false ∧
        r' = { r with
          correlation := { r.correlation with pending }
          metadata := r.metadata.recordAt obligation.position (.signature
            (o.verifier.verify s obligation.hasher (some obligation.announcement) .onePass)) } := by
  unfold settleSignature Correlation.settle at e
  cases hp : r.correlation.pending with
  | nil =>
    simp only [hp] at e
    cases e
    exact .inl ⟨rfl, rfl⟩
  | cons obligation pending =>
    simp only [hp] at e
    split at e
    · cases e
    · next hv =>
      cases e
      exact .inr ⟨obligation, pending, rfl, by simpa using hv, rfl⟩

/-- It fails at nothing but a check without a result. -/
theorem settleSignature_eq_error {r : MessageReader o} {s : Signature} {error : MessageError}
    (e : r.settleSignature s = .error error) : error = .overflow ∧
      ∃ obligation pending, r.correlation.pending = obligation :: pending ∧
        (o.verifier.verify s obligation.hasher (some obligation.announcement) .onePass).hasOverflowed =
          true := by
  unfold settleSignature Correlation.settle at e
  cases hp : r.correlation.pending with
  | nil =>
    simp only [hp] at e
    cases e
  | cons obligation pending =>
    simp only [hp] at e
    split at e
    · next hv =>
      cases e
      exact ⟨rfl, obligation, pending, rfl, hv⟩
    · cases e

theorem exists_settleSignature (hv : o.verifier.Decides) (r : MessageReader o) (s : Signature) :
    ∃ r', r.settleSignature s = .ok r' ∧ r'.frames = r.frames ∧ r'.literal = r.literal ∧
      r.SameStatus r' := by
  cases e : r.settleSignature s with
  | error error =>
    obtain ⟨-, obligation, pending, -, hoverflow⟩ := settleSignature_eq_error e
    rw [hv] at hoverflow
    cases hoverflow
  | ok r' =>
    obtain ⟨-, rfl⟩ | ⟨obligation, pending, -, -, rfl⟩ := settleSignature_eq_ok e
    · exact ⟨_, rfl, rfl, rfl, rfl, rfl⟩
    · exact ⟨_, rfl, rfl, rfl, rfl, rfl⟩

theorem step_of_act {r r' : MessageReader o} {packet : Packet} {f f' : Frame} {outer : List Frame}
    {h : outer.length + 1 ≤ o.maxLayers} (hr : r.frames = f :: outer) (ht : f.Takes packet f')
    (e : r.act f.isBeforeData packet f' outer h = .ok r') :
    r.SameStatus r' ∧ Step o r.state r'.state := by
  obtain ⟨frames, c, m, l, poisoned, finished, nested⟩ := r
  obtain rfl := hr
  unfold act at e
  dsimp only at e
  split at e
  · next p => cases e; exact ⟨⟨rfl, rfl⟩, .key (k := .publicKey p) ht⟩
  · next p => cases e; exact ⟨⟨rfl, rfl⟩, .key (k := .passphrase p) ht⟩
  · obtain ⟨hs, layer, content, ho, hr'⟩ := enterEncrypted_eq_ok e
    refine ⟨hs, ?_⟩
    rw [ht.keys] at ho
    rw [hr']
    exact .enter ht ho (by cases ho; rfl)
  · cases e
  · obtain ⟨hs, content, ho, hr'⟩ := enterCompressed_eq_ok e
    refine ⟨hs, ?_⟩
    rw [ht.keys] at ho
    rw [hr']
    exact .enter ht ho rfl
  · cases e; exact ⟨⟨rfl, rfl⟩, .announce ht⟩
  · next s =>
    split at e
    · next hb => cases e; exact ⟨⟨rfl, rfl⟩, .precede ht hb⟩
    · next hb =>
      have hb : f.isBeforeData = false := by simpa using hb
      obtain ⟨hc, rfl⟩ | ⟨obligation, pending, hc, hv, rfl⟩ := settleSignature_eq_ok e
      · exact ⟨⟨rfl, rfl⟩, .unannounced ht hb hc⟩
      · exact ⟨⟨rfl, rfl⟩, .settle ht hb hc hv⟩
  · cases e; exact ⟨⟨rfl, rfl⟩, .literal ht⟩
  · obtain ⟨s, hs, -⟩ := ht.accepted
    cases hs
  · obtain ⟨s, hs, -⟩ := ht.accepted
    cases hs
  · next tag body =>
    obtain ⟨s, hs, ha⟩ := ht.accepted
    obtain ⟨-, c', hc, -⟩ := Automaton.next_eq_ok_iff.mp ha
    have : s = .unexpectedPacket := by
      simp only [Packet.symbol?] at hs
      split at hs
      · cases hs
      · exact (Option.some.inj hs).symm
    rw [this, Configuration.next?_unexpectedPacket] at hc
    cases hc

theorem step_of_take {r r' : MessageReader o} {packet : Packet} {f : Frame} {source : PacketSource}
    {outer : List Frame} {h : outer.length + 1 ≤ o.maxLayers} (hr : r.frames = f :: outer)
    (hn : f.source.next = .ok (some (packet, source)))
    (e : r.take packet { f with source } outer h = .ok r') :
    r.SameStatus r' ∧ Step o r.state r'.state := by
  unfold take at e
  split at e
  · next hp =>
    obtain ⟨frames, c, m, l, poisoned, finished, nested⟩ := r
    obtain rfl := hr
    cases e
    exact ⟨⟨rfl, rfl⟩, .pass hn hp⟩
  · next s hp =>
    split at e
    · cases e
    · next a ha =>
      have ht : f.Takes packet { f with source, automaton := a } := ⟨rfl, hn, ⟨s, hp, ha⟩, rfl⟩
      exact step_of_act hr ht e

/-- A layer that ends was accepted, and the signatures in front of its data are settled. -/
theorem leave_eq_ok {r r' : MessageReader o} {f : Frame} {outer : List Frame}
    {h : outer.length ≤ o.maxLayers} (e : r.leave f outer h = .ok r') :
    (∃ a, f.automaton.next .endOfSequence = (.ok (), a)) ∧
      (∀ x ∈ (r.correlation.settlePreceding o.verifier outer.length).1, x.2.hasOverflowed = false) ∧
      r.SameStatus r' ∧ r'.state = ⟨outer, (r.correlation.settlePreceding o.verifier outer.length).2,
        let m := (r.correlation.settlePreceding o.verifier outer.length).1.foldl
          (fun m x => m.recordAt x.1 (.signature x.2)) r.metadata
        if f.kind = .message then m else m.close, r.literal⟩ := by
  unfold leave at e
  split at e
  · cases e
  · next a ha =>
    split at e
    · cases e
    · dsimp only at e
      split at e
      · cases e
      · next hv =>
        cases e
        exact ⟨⟨a, ha⟩, by simpa using hv, ⟨rfl, rfl⟩, rfl⟩

theorem step_of_leave {r r' : MessageReader o} {f : Frame} {outer : List Frame}
    {h : outer.length ≤ o.maxLayers} (hr : r.frames = f :: outer) (hn : f.source.next = .ok none)
    (e : r.leave f outer h = .ok r') : r.SameStatus r' ∧ Step o r.state r'.state := by
  obtain ⟨ha, hv, hs, hr'⟩ := leave_eq_ok e
  rw [hr', state, hr]
  exact ⟨hs, .leave ⟨hn, ha⟩ hv⟩

/-- A step that succeeds is one of `Step`, and tells the caller nothing. -/
theorem step_of_eq_some {r r' : MessageReader o} (e : r.step = .ok (some r')) :
    r.SameStatus r' ∧ Step o r.state r'.state := by
  unfold step at e
  split at e
  · cases e
  · next f outer hr =>
    dsimp only at e
    split at e
    · cases e
    · next hn =>
      obtain ⟨r₁, h₁, h₂⟩ := Except.map_eq_ok.mp e
      obtain rfl := Option.some.inj h₂
      exact step_of_leave hr hn h₁
    · next packet source hn =>
      obtain ⟨r₁, h₁, h₂⟩ := Except.map_eq_ok.mp e
      obtain rfl := Option.some.inj h₂
      exact step_of_take hr hn h₁

/-- Where the innermost layer has no packet left, a step ends it. -/
theorem step_of_next_none {r : MessageReader o} {f : Frame} {outer : List Frame} (hr : r.frames = f :: outer)
    (hn : f.source.next = .ok none) : ∃ h, r.step = (r.leave f outer h).map some := by
  have hb : outer.length ≤ o.maxLayers := by
    have := r.nested
    rw [hr, List.length_cons] at this
    omega
  refine ⟨hb, ?_⟩
  unfold step
  split
  · next h => rw [hr] at h; cases h
  · next h =>
    rw [hr] at h
    cases h
    simp only [hn]

/-- Where it has one, a step takes it. -/
theorem step_of_next_some {r : MessageReader o} {f : Frame} {outer : List Frame} {p : Packet}
    {source : PacketSource} (hr : r.frames = f :: outer) (hn : f.source.next = .ok (some (p, source))) :
    ∃ h, r.step = (r.take p { f with source } outer h).map some := by
  have hb : outer.length + 1 ≤ o.maxLayers := by
    have := r.nested
    rwa [hr, List.length_cons] at this
  refine ⟨hb, ?_⟩
  unfold step
  split
  · next h => rw [hr] at h; cases h
  · next h =>
    rw [hr] at h
    cases h
    simp only [hn]

/-- A layer of which nothing is left ends, unless its automaton does not or the check of a signature in
front of its data comes to no result. -/
theorem leave_verdict {r : MessageReader o} {f : Frame} {outer : List Frame}
    (h : outer.length ≤ o.maxLayers) :
    (f.automaton.Completes [] ∧
      ((∃ r', r.leave f outer h = .ok r' ∧ r'.frames = outer ∧ r'.literal = r.literal) ∨
        r.leave f outer h = .error .overflow ∧
          ∃ x ∈ (r.correlation.settlePreceding o.verifier outer.length).1, x.2.hasOverflowed = true)) ∨
      ¬ f.automaton.Completes [] ∧ ∃ rejection, r.leave f outer h = .error (.malformed rejection) := by
  rw [Automaton.completes_nil_iff]
  unfold leave
  split
  · next rejection a hn => exact .inr ⟨by simp [hn], rejection, rfl⟩
  · next a hn =>
    have hvalid : a.assertValid = .ok () ↔ a.isValid = true := by
      rw [Automaton.isValid, Automaton.assertValid]
      cases a.rejection <;> simp
    split
    · next rejection ha =>
      have hinvalid : a.isValid ≠ true := by
        intro hv
        rw [hvalid.mpr hv] at ha
        cases ha
      exact .inr ⟨by simp [hn, hinvalid], rejection, rfl⟩
    · next ha =>
      refine .inl ⟨⟨a, hn, hvalid.mp ha⟩, ?_⟩
      dsimp only
      split
      · next hv => exact .inr ⟨rfl, by simpa using hv⟩
      · exact .inl ⟨_, rfl, rfl, rfl⟩

/-- Where every check comes to a result, only the automaton can refuse the end of a layer. -/
theorem leave_verdict_of_decides {r : MessageReader o} {f : Frame} {outer : List Frame}
    (hv : o.verifier.Decides) (h : outer.length ≤ o.maxLayers) :
    (f.automaton.Completes [] ∧
      ∃ r', r.leave f outer h = .ok r' ∧ r'.frames = outer ∧ r'.literal = r.literal) ∨
      ¬ f.automaton.Completes [] ∧ ∃ rejection, r.leave f outer h = .error (.malformed rejection) := by
  obtain ⟨hc, hr | ⟨-, x, hx, hoverflow⟩⟩ | hn := leave_verdict (r := r) (f := f) h
  · exact .inl ⟨hc, hr⟩
  · obtain ⟨p, -, rfl⟩ := List.mem_map.mp hx
    rw [hv] at hoverflow
    cases hoverflow
  · exact .inr hn

/-- There is nothing to do once every layer has ended. -/
theorem step_eq_none_iff {r : MessageReader o} : r.step = .ok none ↔ r.frames = [] := by
  constructor
  · intro e
    unfold step at e
    split at e
    · next h => exact h
    · dsimp only at e
      split at e
      · cases e
      · obtain ⟨r₁, -, h₂⟩ := Except.map_eq_ok.mp e
        cases h₂
      · obtain ⟨r₁, -, h₂⟩ := Except.map_eq_ok.mp e
        cases h₂
  · intro h
    unfold step
    split
    · rfl
    · next hf => rw [h] at hf; cases hf

theorem step_of_next_error {r : MessageReader o} {f : Frame} {outer : List Frame} {e : PacketError}
    (hr : r.frames = f :: outer) (hn : f.source.next = .error e) : r.step = .error (.packet e) := by
  unfold step
  split
  · next h => rw [hr] at h; cases h
  · next h =>
    rw [hr] at h
    cases h
    simp only [hn]

/-- Readers with the same layers open step alike if they take packets alike and end layers alike. -/
theorem step_of_frames_eq {o' : ReadingContext} {p : MessageError → Prop}
    {R : MessageReader o → MessageReader o' → Prop} {r : MessageReader o} {r' : MessageReader o'}
    (hr : r'.frames = r.frames)
    (hleave : ∀ f outer h h', SameUnless p R (r.leave f outer h) (r'.leave f outer h'))
    (htake : ∀ packet f outer h h', SameUnless p R (r.take packet f outer h) (r'.take packet f outer h')) :
    SameUnless p (Option.Rel R) r.step r'.step := by
  cases hf : r.frames with
  | nil =>
    rw [step_eq_none_iff.mpr hf, step_eq_none_iff.mpr (hr.trans hf)]
    exact .same (.ok .none)
  | cons f outer =>
    have hf' : r'.frames = f :: outer := hr.trans hf
    cases hn : f.source.next with
    | error e =>
      rw [step_of_next_error hf hn, step_of_next_error hf' hn]
      exact .same (.error _)
    | ok next =>
      cases next with
      | none =>
        obtain ⟨h, hstep⟩ := step_of_next_none hf hn
        obtain ⟨h', hstep'⟩ := step_of_next_none hf' hn
        rw [hstep, hstep']
        exact (hleave f outer h h').map fun _ _ => .some
      | some next =>
        obtain ⟨h, hstep⟩ := step_of_next_some hf hn
        obtain ⟨h', hstep'⟩ := step_of_next_some hf' hn
        rw [hstep, hstep']
        exact (htake _ _ outer h h').map fun _ _ => .some

/-- What a step fails at: the next packet, the end of the innermost layer, or what the packet asks for. -/
theorem step_eq_error {r : MessageReader o} {error : MessageError} (e : r.step = .error error) :
    ∃ f outer, r.frames = f :: outer ∧
      ((∃ e', f.source.next = .error e' ∧ error = .packet e') ∨
        (f.source.next = .ok none ∧ ∃ h, r.leave f outer h = .error error) ∨
        ∃ p source h, f.source.next = .ok (some (p, source)) ∧
          r.take p { f with source } outer h = .error error) := by
  cases hr : r.frames with
  | nil => rw [step_eq_none_iff.mpr hr] at e; cases e
  | cons f outer =>
    refine ⟨f, outer, rfl, ?_⟩
    cases hn : f.source.next with
    | error e' =>
      rw [step_of_next_error hr hn] at e
      exact .inl ⟨e', rfl, (Except.error.inj e).symm⟩
    | ok next =>
      cases next with
      | none =>
        obtain ⟨h, hstep⟩ := step_of_next_none hr hn
        exact .inr (.inl ⟨rfl, h, Except.map_eq_error.mp (hstep ▸ e)⟩)
      | some next =>
        obtain ⟨h, hstep⟩ := step_of_next_some hr hn
        exact .inr (.inr ⟨next.1, next.2, h, rfl, Except.map_eq_error.mp (hstep ▸ e)⟩)

end MessageReader

end OpenPGP
