import OpenPGP.Proofs.Soundness
/-!
# Everything a reader comes to

`Reaches` is every state a reader of a source can be in, between the requests of
the caller and inside them, whatever is asked for and in whatever amounts, and
with a failure anywhere. `MessageReader.Holds` is what is true of all of them.

Results:
* `Reaches.holds`: every state that is reached is sound, or failed, or has given out its metadata.
* `MessageReader.Holds.finish`: metadata that is given out is that of a whole chain of layers.
* `Reaches.preserved`: what neither steps nor requests take away holds on every run.
* `readMessage_eq_ok`: reading a whole message is one of the runs.
-/
namespace OpenPGP

open Crypto

/-- Reading with no keys and no certificates, under the standard restrictions. -/
def ReadingContext.keyless : ReadingContext := ReadingOptions.context ⟨.empty, ⟨[]⟩, .ofSeconds 0, .standard⟩

/-- A literal packet of two octets. -/
def literalOctets : Octets := [0xCB, 8, 0x62, 0, 0, 0, 0, 0, 0x68, 0x69]

/-- An announcement, compressed data around a literal packet, and a signature. -/
def signedPackets : List Packet :=
  [.onePassSignature ⟨.binary, .sha256, .ed25519, .wildcard, true⟩,
    .compressedData ⟨.uncompressed, literalOctets⟩,
    .signature (.ofSubpackets .binary .ed25519 .sha256 [] [] (.zero 2) (.ed25519 (.zero 64)))]

variable {o : ReadingContext} {source : PacketSource} {out : Octets}

namespace Sound

/-- What was given out and what waits are the data of the literal packet the layers lead to. -/
theorem literal_eq {s : ReadingState} (h : Sound o source out s) :
    (out = [] ∧ s.literal = []) ∨ ∃ p, LeadsTo o source p ∧ out ++ s.literal = p.body := by
  cases h with
  | ended h hp ho => exact .inr ⟨_, hp, by simp [ho]⟩
  | reading hc hk hf hr =>
    cases hr with
    | before hd ho hl => exact .inl ⟨ho, hl⟩
    | behind hd hw ho hp => exact .inr ⟨_, hp, ho⟩

theorem release {s : ReadingState} (h : Sound o source out s) (n : Nat) :
    Sound o source (out ++ s.literal.take n)
      ⟨s.frames, s.correlation.update (s.literal.take n), s.metadata, s.literal.drop n⟩ := by
  cases h with
  | ended h hp ho =>
    rw [Correlation.update_covering]
    simp only [List.take_nil, List.drop_nil, List.append_nil]
    exact .ended h hp ho
  | reading hc hk hf hr =>
    rw [Correlation.update_covering]
    refine .reading hc hk hf ?_
    cases hr with
    | before hd ho hl => exact .before hd (by simp [ho, hl]) (by simp [hl])
    | behind hd hw ho hp => exact .behind hd hw (by simpa using ho) hp

theorem correlation_of_frames {s : ReadingState} (h : Sound o source out s) (hs : s.frames = []) :
    s.correlation = .empty := by
  cases h with
  | ended h hp ho => rfl
  | reading hc hk hf hr => cases hs

theorem ended_of_frames {s : ReadingState} (h : Sound o source out s) (hs : s.frames = []) :
    s.literal = [] ∧ ∃ layers p, Reading o source layers p ∧ LeadsTo o source p ∧ out = p.body ∧
      s.metadata.roots = LayerRecord.nodes o.verifier p.body layers := by
  cases h with
  | ended h hp ho => exact ⟨rfl, _, _, h, hp, ho, rfl⟩
  | reading hc hk hf hr => cases hs

end Sound

namespace MessageReader

/-- Where reading begins. -/
def start (o : ReadingContext) (source : PacketSource) : MessageReader o where
  frames := [.ofSource .message source]
  correlation := .empty
  metadata := .empty
  literal := []
  poisoned := false
  finished := none
  nested := Nat.succ_le_succ (Nat.zero_le _)

theorem ofSource_eq (o : ReadingContext) (source : PacketSource) :
    ofSource o source = match (start o source).settle with
      | (.ok (), r) => .ok r
      | (.error error, _) => .error error := rfl

/-- The octets a request gave out. -/
def given : Except MessageError Octets → Octets
  | .ok octets => octets
  | .error _ => []

/-- What is true of every reader of a source that has given out octets. -/
inductive Holds (source : PacketSource) (out : Octets) (r : MessageReader o) : Prop
  | reading (hp : r.poisoned = false) (hf : r.finished = none) (h : Sound o source out r.state)
  /-- The metadata was given out. -/
  | finished {m : MessageMetadata} {layers : List LayerRecord} {p : LiteralData}
      (hp : r.poisoned = false) (hf : r.finished = some m) (hs : r.frames = [])
      (hl : r.literal = []) (h : Reading o source layers p) (hlead : LeadsTo o source p)
      (ho : out = p.body) (hm : m.roots = LayerRecord.nodes o.verifier p.body layers)
      (he : r.metadata = .empty) (hc : r.correlation = .empty)
  /-- Reading has failed, perhaps after some of the data was given out. -/
  | failed (hp : r.poisoned = true) (hs : r.frames = []) (hl : r.literal = [])
      (ho : out = [] ∨ ∃ p, LeadsTo o source p ∧ out <+: p.body)
      (hm : Recorded o (LayerNode.walk r.metadata.roots))

/-- The states a reader of a source comes to, with the octets given out until then. -/
inductive Reaches (o : ReadingContext) (source : PacketSource) : MessageReader o → Octets → Prop
  | start : Reaches o source (start o source) []
  /-- A step is taken when nothing waits to be given out. -/
  | step {r r' : MessageReader o} {out : Octets} (h : Reaches o source r out) (hl : r.literal = [])
      (hs : r.step = .ok (some r')) : Reaches o source r' out
  | fail {r : MessageReader o} {out : Octets} {error : MessageError} (h : Reaches o source r out)
      (hl : r.literal = []) (hs : r.step = .error error) : Reaches o source r.poison out
  | read {r : MessageReader o} {out : Octets} (h : Reaches o source r out) (n : Nat) :
      Reaches o source (r.read n).2 (out ++ given (r.read n).1)
  | finish {r : MessageReader o} {out : Octets} (h : Reaches o source r out) :
      Reaches o source r.finish.2 out

namespace Holds

variable {r r' : MessageReader o}

theorem step (h : r.Holds source out) (hl : r.literal = []) (hs : r.step = .ok (some r')) :
    r'.Holds source out := by
  have hframes : r.frames ≠ [] := fun e => by
    rw [step_eq_none_iff.mpr e] at hs
    cases hs
  cases h with
  | reading hp hf h =>
    obtain ⟨⟨hp', hf'⟩, hstep⟩ := step_of_eq_some hs
    exact .reading (hp'.trans hp) (hf'.trans hf) (h.step hstep hl)
  | finished hp hf hs' => exact absurd hs' hframes
  | failed hp hs' => exact absurd hs' hframes

theorem fail {error : MessageError} (h : r.Holds source out) (hs : r.step = .error error) :
    r.poison.Holds source out := by
  have hframes : r.frames ≠ [] := fun e => by
    rw [step_eq_none_iff.mpr e] at hs
    cases hs
  cases h with
  | reading hp hf h =>
    refine .failed rfl rfl rfl ?_ h.recorded
    rcases h.literal_eq with ⟨ho, -⟩ | ⟨p, hlead, ho⟩
    · exact .inl ho
    · exact .inr ⟨p, hlead, _, ho⟩
  | finished hp hf hs' => exact absurd hs' hframes
  | failed hp hs' => exact absurd hs' hframes

theorem settle (h : r.Holds source out) : r.settle.2.Holds source out := by
  fun_induction MessageReader.settle r with
  | case1 r hl => exact h
  | case2 r hl error hs => exact h.fail hs
  | case3 r hl hs => exact h
  | case4 r hl next hs ih => exact ih (h.step (Decidable.not_not.mp hl) hs)

end Holds

/-- Going on stops only where octets wait, or behind all layers, and tells the caller nothing. -/
theorem settle_eq_ok {r r' : MessageReader o} (e : r.settle = (.ok (), r')) :
    r.SameStatus r' ∧ (r'.literal ≠ [] ∨ r'.frames = []) := by
  fun_induction settle r with
  | case1 r hl => cases e; exact ⟨⟨rfl, rfl⟩, .inl hl⟩
  | case2 r hl error hs => cases e
  | case3 r hl hs => cases e; exact ⟨⟨rfl, rfl⟩, .inr (step_eq_none_iff.mp hs)⟩
  | case4 r hl next hs ih =>
    obtain ⟨⟨hp, hf⟩, -⟩ := step_of_eq_some hs
    obtain ⟨⟨hp', hf'⟩, hstop⟩ := ih e
    exact ⟨⟨hp'.trans hp, hf'.trans hf⟩, hstop⟩

theorem settle_of_error {r : MessageReader o} {error : MessageError} (hl : r.literal = [])
    (hs : r.step = .error error) : r.settle = (.error error, r.poison) := by
  rw [MessageReader.settle, if_neg (not_not.mpr hl)]
  split
  · next e => rw [hs] at e; cases e; rfl
  · next e => rw [hs] at e; cases e
  · next e => rw [hs] at e; cases e

theorem settle_of_frames {r : MessageReader o} (hl : r.literal = []) (hs : r.frames = []) :
    r.settle = (.ok (), r) := by
  rw [MessageReader.settle, if_neg (not_not.mpr hl)]
  split
  · next e => rw [step_eq_none_iff.mpr hs] at e; cases e
  · rfl
  · next e => rw [step_eq_none_iff.mpr hs] at e; cases e

theorem settle_of_step {r r' : MessageReader o} (hl : r.literal = [])
    (hs : r.step = .ok (some r')) : r.settle = r'.settle := by
  rw [MessageReader.settle, if_neg (not_not.mpr hl)]
  split
  · next e => rw [hs] at e; cases e
  · next e => rw [hs] at e; cases e
  · next e => rw [hs] at e; cases e; rfl

theorem read_of_literal {r : MessageReader o} {n : Nat} (hp : r.poisoned = false) (hn : n ≠ 0)
    (hl : r.literal ≠ []) : r.read n = (.ok (r.literal.take n), r.release n) := by
  have hsettle : r.settle = (.ok (), r) := by rw [MessageReader.settle, if_pos hl]
  simp [MessageReader.read, hp, hn, hsettle, hl]

theorem finish_of_frames {r : MessageReader o} (hp : r.poisoned = false) (hf : r.finished = none)
    (hl : r.literal = []) (hs : r.frames = []) : r.finish = (.ok ⟨r.metadata.roots⟩,
      { r with metadata := .empty, finished := some ⟨r.metadata.roots⟩ }) := by
  have hsettle := settle_of_frames hl hs
  simp [MessageReader.finish, hp, hf, hl, hsettle, hs, MetadataBuilder.finish]

theorem finished_of_finish {r r' : MessageReader o} {m : MessageMetadata} (e : r.finish = (.ok m, r')) :
    r'.finished = some m := by
  unfold finish at e
  split at e
  · cases e
  split at e
  · next hm =>
    cases e
    exact hm
  split at e
  · cases e
  split at e
  · cases e
  split at e
  · cases e
  split at e
  · cases e
    rfl
  · cases e

/-! ## Reading everything -/

theorem readAll_of_done {r r' : MessageReader o} (hp : r.poisoned = false)
    (hs : r.settle = (.ok (), r')) (hl : r'.literal = []) : r.readAll = ([], .ok (), r') := by
  rw [MessageReader.readAll, if_neg (by simp [hp])]
  split
  · next e => rw [hs] at e; cases e
  · next e =>
    rw [hs] at e
    cases e
    rw [dif_pos hl]

theorem readAll_of_error {r r' : MessageReader o} {error : MessageError} (hp : r.poisoned = false)
    (hs : r.settle = (.error error, r')) : r.readAll = ([], .error error, r') := by
  rw [MessageReader.readAll, if_neg (by simp [hp])]
  split
  · next e =>
    rw [hs] at e
    cases e
    rfl
  · next e => rw [hs] at e; cases e

theorem readAll_of_more {r r' last : MessageReader o} {behind : Octets}
    {result : Except MessageError Unit} (hp : r.poisoned = false) (hs : r.settle = (.ok (), r'))
    (hl : r'.literal ≠ []) (e : (r'.release r'.literal.length).readAll = (behind, result, last)) :
    r.readAll = (r'.literal ++ behind, result, last) := by
  rw [MessageReader.readAll, if_neg (by simp [hp])]
  split
  · next e' => rw [hs] at e'; cases e'
  · next e' =>
    rw [hs] at e'
    cases e'
    rw [dif_neg hl, e]

namespace Holds

variable {r r' : MessageReader o}

theorem release (h : r.Holds source out) (n : Nat) :
    (r.release n).Holds source (out ++ r.literal.take n) := by
  cases h with
  | reading hp hf h => exact .reading hp hf (h.release n)
  | finished hp hf hs hl h hlead ho hm he hc =>
    exact .finished hp hf hs (by simp [MessageReader.release, hl]) h hlead (by simp [ho, hl]) hm he
      (by simp [MessageReader.release, hc, Correlation.update, Correlation.empty])
  | failed hp hs hl ho hm =>
    exact .failed hp hs (by simp [MessageReader.release, hl]) (by simpa [hl] using ho) hm

theorem read (h : r.Holds source out) (n : Nat) :
    (r.read n).2.Holds source (out ++ given (r.read n).1) := by
  have hsettle := h.settle
  unfold MessageReader.read
  split
  · simpa [given] using h
  · split
    · simpa [given] using h
    · split
      · next error r' e =>
        rw [e] at hsettle
        simpa [given] using hsettle
      · next r' e =>
        rw [e] at hsettle
        split
        · simpa [given] using hsettle
        · exact hsettle.release n

/-- Metadata is given out only behind a message that was read to its end, and it is the tree of all its
layers. -/
theorem finish (h : r.Holds source out) : r.finish.2.Holds source out ∧
    ∀ m, r.finish.1 = .ok m → ∃ layers p, Reading o source layers p ∧ out = p.body ∧
      m.roots = LayerRecord.nodes o.verifier p.body layers := by
  have hsettle := h.settle
  unfold MessageReader.finish
  split
  · exact ⟨h, fun m e => by cases e⟩
  next hpoisoned =>
  split
  · next m hm =>
    cases h with
    | reading hp hf => rw [hm] at hf; cases hf
    | failed hp => exact absurd hp hpoisoned
    | finished hp hf hs hl h hlead ho hroots he hc =>
      refine ⟨.finished hp hf hs hl h hlead ho hroots he hc, fun m' e => ?_⟩
      obtain rfl : m = m' := Except.ok.inj e
      obtain rfl := Option.some.inj (hm.symm.trans hf)
      exact ⟨_, _, h, ho, hroots⟩
  next hfinished =>
  split
  · exact ⟨h, fun m e => by cases e⟩
  split
  · next error r' hs =>
    rw [hs] at hsettle
    exact ⟨hsettle, fun m e => by cases e⟩
  next r' hs =>
  rw [hs] at hsettle
  obtain ⟨⟨hp', hf'⟩, hstop⟩ := settle_eq_ok hs
  split
  · exact ⟨hsettle, fun m e => by cases e⟩
  next hl =>
  have hframes : r'.frames = [] := hstop.resolve_left hl
  have hmetadata : r'.metadata.finish r'.frames.isEmpty = .ok ⟨r'.metadata.roots⟩ := by
    simp [MetadataBuilder.finish, hframes]
  rw [hmetadata]
  cases hsettle with
  | finished hp hf => rw [hf', hfinished] at hf; cases hf
  | failed hp => exact absurd (hp'.symm.trans hp) hpoisoned
  | reading hp hf h =>
    obtain ⟨hliteral, layers, p, hread, hlead, ho, hroots⟩ := h.ended_of_frames hframes
    have hcorrelation := h.correlation_of_frames hframes
    refine ⟨.finished hp rfl hframes hliteral hread hlead ho hroots rfl hcorrelation, fun m e => ?_⟩
    obtain rfl := Except.ok.inj e
    exact ⟨layers, p, hread, ho, hroots⟩

end Holds

/-- Octets that wait or were given out are those of literal data that the source leads to. -/
theorem Holds.literal_prefix {r : MessageReader o} (h : r.Holds source out) :
    out ++ r.literal = [] ∨ ∃ p, LeadsTo o source p ∧ out ++ r.literal <+: p.body := by
  cases h with
  | reading hp hf h =>
    rcases h.literal_eq with ⟨ho, hl⟩ | ⟨p, hlead, ho⟩
    · exact .inl (by rw [ho, List.nil_append]; exact hl)
    · exact .inr ⟨p, hlead, [], by rw [List.append_nil]; exact ho⟩
  | finished hp hf hs hl h hlead ho hm he =>
    exact .inr ⟨_, hlead, [], by rw [hl, ho, List.append_nil, List.append_nil]⟩
  | failed hp hs hl ho hm =>
    rw [hl, List.append_nil]
    exact ho

theorem Holds.recorded {r : MessageReader o} (h : r.Holds source out) :
    Recorded o (LayerNode.walk r.metadata.roots) := by
  cases h with
  | reading hp hf h => exact h.recorded
  | finished hp hf hs hl h hlead ho hm he =>
    rw [he, MetadataBuilder.empty, LayerNode.walk]
    exact .nil
  | failed hp hs hl ho hm => exact hm

/-- **Every run.** -/
theorem Reaches.holds {r : MessageReader o} (h : Reaches o source r out) : r.Holds source out := by
  induction h with
  | start => exact .reading rfl rfl (Sound.start o source)
  | step h hl hs ih => exact ih.step hl hs
  | fail h hl hs ih => exact ih.fail hs
  | read h n ih => exact ih.read n
  | finish h ih => exact ih.finish.1

theorem Reaches.sound {r : MessageReader o} (h : Reaches o source r out) (hf : r.frames ≠ []) :
    Sound o source out r.state := by
  cases h.holds with
  | reading hp hf' h => exact h
  | finished hp hf' hs => exact absurd hs hf
  | failed hp hs => exact absurd hs hf

/-! ## Requests -/

theorem Reaches.settle {r : MessageReader o} (h : Reaches o source r out) :
    Reaches o source r.settle.2 out := by
  fun_induction MessageReader.settle r with
  | case1 r hl => exact h
  | case2 r hl error hs => exact h.fail (Decidable.not_not.mp hl) hs
  | case3 r hl hs => exact h
  | case4 r hl next hs ih => exact ih (h.step (Decidable.not_not.mp hl) hs)

/-- A property of readers that nothing takes away: no step, no failure, nothing that is given out. -/
structure Preserves (P : MessageReader o → Prop) : Prop where
  step : ∀ r r' : MessageReader o, P r → r.step = .ok (some r') → P r'
  poison : ∀ r : MessageReader o, P r → P r.poison
  release : ∀ (r : MessageReader o) (n : Nat), P r → P (r.release n)
  give : ∀ r : MessageReader o, P r → P { r with metadata := .empty, finished := some ⟨r.metadata.roots⟩ }

namespace Preserves

variable {P : MessageReader o → Prop} {r : MessageReader o}

theorem settle (hp : Preserves P) (h : P r) : P r.settle.2 := by
  fun_induction MessageReader.settle r with
  | case1 r hl => exact h
  | case2 r hl error hs => exact hp.poison r h
  | case3 r hl hs => exact h
  | case4 r hl next hs ih => exact ih (hp.step r next h hs)

theorem read (hp : Preserves P) (h : P r) (n : Nat) : P (r.read n).2 := by
  have hsettle := hp.settle h
  unfold MessageReader.read
  split
  · exact h
  split
  · exact h
  split
  · next hs => rwa [hs] at hsettle
  · next hs =>
    rw [hs] at hsettle
    split
    · exact hsettle
    · exact hp.release _ n hsettle

theorem finish (hp : Preserves P) (h : P r) : P r.finish.2 := by
  have hsettle := hp.settle h
  unfold MessageReader.finish
  split
  · exact h
  split
  · exact h
  split
  · exact h
  split
  · next hs => rwa [hs] at hsettle
  next r' hs =>
  rw [hs] at hsettle
  split
  · exact hsettle
  next hl =>
  have hframes := (settle_eq_ok hs).2.resolve_left hl
  have hmetadata : r'.metadata.finish r'.frames.isEmpty = .ok ⟨r'.metadata.roots⟩ := by
    rw [MetadataBuilder.finish, hframes, List.isEmpty_nil, if_pos rfl]
  rw [hmetadata]
  exact hp.give r' hsettle

end Preserves

/-- What holds at the start and is not taken away holds on every run. -/
theorem Reaches.preserved {P : MessageReader o → Prop} (hp : Preserves P)
    (hstart : P (MessageReader.start o source)) {r : MessageReader o} (h : Reaches o source r out) : P r := by
  induction h with
  | start => exact hstart
  | step _ _ hs ih => exact hp.step _ _ ih hs
  | fail _ _ _ ih => exact hp.poison _ ih
  | read _ n ih => exact hp.read ih n
  | finish _ ih => exact hp.finish ih

theorem Reaches.of_ofSource {r : MessageReader o} (e : ofSource o source = .ok r) :
    Reaches o source r [] := by
  have h : Reaches o source (MessageReader.start o source).settle.2 [] := Reaches.start.settle
  rw [ofSource_eq] at e
  split at e
  · next r' hs =>
    cases e
    rwa [hs] at h
  · cases e

/-- Reading everything is reading in some amounts. -/
theorem Reaches.readAll {r last : MessageReader o} {octets : Octets} {result : Except MessageError Unit}
    (h : Reaches o source r out) (e : r.readAll = (octets, result, last)) :
    Reaches o source last (out ++ octets) := by
  fun_induction MessageReader.readAll r generalizing out octets result last with
  | case1 r hp =>
    cases e
    rwa [List.append_nil]
  | case2 r hp error r' hs =>
    cases e
    have := h.settle
    rw [hs] at this
    rwa [List.append_nil]
  | case3 r hp r' hs hl =>
    cases e
    have := h.settle
    rw [hs] at this
    rwa [List.append_nil]
  | case4 r hp r' hs hl rest result' last' hrest ih =>
    cases e
    have hsettled : Reaches o source r' out := by
      have := h.settle
      rwa [hs] at this
    have hread := hsettled.read r'.literal.length
    rw [read_of_literal ?_ ?_ hl] at hread
    · rw [given, List.take_length] at hread
      rw [← List.append_assoc]
      exact ih hread hrest
    · have := (settle_eq_ok hs).1.1
      rw [this]
      simpa using hp
    · exact fun hn => hl (List.length_eq_zero_iff.mp hn)

end MessageReader

theorem readMessage_of_readAll {message octets : Octets} {m : MessageMetadata}
    {r last : MessageReader o} (hs : (MessageReader.start o (.ofContent o message)).settle = (.ok (), r))
    (hr : r.readAll = (octets, .ok (), last)) (hm : last.finish.1 = .ok m) :
    readMessage o message = .ok (octets, m) := by
  have hopen : MessageReader.ofReader o (.ofOctets message) = .ok r := by
    have h : MessageReader.ofReader o (.ofOctets message) =
      MessageReader.ofSource o (.ofContent o message) := rfl
    rw [h, MessageReader.ofSource_eq, hs]
  refine Except.bind_eq_ok.mpr ⟨r, hopen, ?_⟩
  rw [hr]
  exact Except.bind_eq_ok.mpr ⟨m, hm, rfl⟩

/-- What reading a whole message gives is what some run of a reader of its octets gives. -/
theorem readMessage_eq_ok {message octets : Octets} {m : MessageMetadata}
    (e : readMessage o message = .ok (octets, m)) :
    ∃ r r', MessageReader.Reaches o (.ofContent o message) r octets ∧ r.finish = (.ok m, r') := by
  obtain ⟨r, hr, e⟩ := Except.bind_eq_ok.mp e
  have hreach := MessageReader.Reaches.of_ofSource hr
  split at e
  · cases e
  · next octets' last hread =>
    obtain ⟨m', hm, e⟩ := Except.bind_eq_ok.mp e
    cases e
    exact ⟨last, last.finish.2, hreach.readAll hread, by rw [← hm]⟩

end OpenPGP
