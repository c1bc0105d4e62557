import Mathlib.Data.Nat.Init
import OpenPGP.Proofs.Release
import OpenPGP.Proofs.Schedules
/-!
# What a failure leaves behind

A caller that reads a message can be told three things that are no data: that reading has
failed, that it failed before, and that data is still to be read. The first is final.
The last changes nothing, so the caller may go on reading: metadata is asked for only
behind the data, and behind the data no other data can come. What rules it out is the
automaton of a layer, which owes no message any more once it took one (`Frame.IsBehind`).

Results:
* `Step.isBehind`: where every layer is behind its data, a step finds none.
* `MessageReader.isBehind_serve`: between the requests of a caller every layer is.
* `MessageReader.failures_of_ofSource`: failures are final, and asking too early does nothing.
-/
namespace OpenPGP

/-! ## Behind the data -/

/-- Where no message is owed the automaton takes signatures and the end only, behind an element, and no
message is owed afterwards. -/
theorem Configuration.next?_of_not_owed {c c' : Configuration} {s : InputSymbol} (h : .msg ∉ c.stack)
    (hn : c.next? s = some c') :
    c.state.isElement = true ∧ (s = .signature ∨ s = .endOfSequence) ∧ .msg ∉ c'.stack := by
  obtain ⟨state, stack⟩ := c
  cases stack with
  | nil => cases hn
  | cons top below =>
    cases top with
    | msg => exact absurd List.mem_cons_self h
    | sig =>
      obtain ⟨hstate, rfl, rfl⟩ := Sketch.next?_sig hn
      exact ⟨hstate, .inl rfl, fun hm => h (List.mem_cons_of_mem _ hm)⟩
    | terminus =>
      cases state <;> cases s <;> simp [next?, rule, ControlState.isElement] at hn <;> subst hn <;>
        exact ⟨rfl, .inr rfl, h⟩

/-- The data of a layer was met: no message is owed any more. -/
def Frame.IsBehind (f : Frame) : Prop := .msg ∉ f.automaton.configuration.stack

namespace Frame

variable {f f' : Frame} {p : Packet}

theorem IsBehind.of_takes (h : f.IsBehind) (ht : f.Takes p f') :
    f'.IsBehind ∧ f.isBeforeData = false ∧ ∃ s, p = .signature s := by
  obtain ⟨s, hs, ha⟩ := ht.accepted
  obtain ⟨-, c, hc, hf⟩ := Automaton.next_eq_ok_iff.mp ha
  obtain ⟨hstate, rfl | rfl, hstack⟩ := Configuration.next?_of_not_owed h hc
  · refine ⟨by rwa [IsBehind, hf], ?_, Packet.symbol?_eq_signature hs⟩
    cases hst : f.automaton.configuration.state <;>
      simp [isBeforeData, hst, ControlState.isElement] at hstate ⊢
  · exact absurd hs p.symbol?_ne_end

theorem Took.isBehind {start : PacketSource} {packets : List Packet} {d : Packet}
    (h : f.Took start packets) (hd : (layerSketch packets).data = some d) : f.IsBehind := by
  obtain ⟨-, hstack⟩ := (Sketch.fits_some hd).mp (layerSketch_fits h.accepted)
  simp [IsBehind, hstack]

end Frame

/-- Every open layer is behind its data. -/
def ReadingState.IsBehind (s : ReadingState) : Prop := ∀ f ∈ s.frames, f.IsBehind

variable {o : ReadingContext} {source : PacketSource} {out : Octets}

/-- The layers around the innermost one stopped at their containers. -/
theorem Surroundings.Open.isBehind {c : Surroundings} (h : c.Open o source) :
    ∀ f ∈ c.frames, f.IsBehind := by
  induction h with
  | root => intro f hf; cases hf
  | inside h hk hf hn hd ho ih => exact List.forall_mem_cons.mpr ⟨hf.isBehind (by rw [hd]), ih⟩

theorem Sound.isBehind {s : ReadingState} (h : Sound o source out s) (hl : s.literal ≠ []) :
    s.IsBehind := by
  cases h with
  | ended => exact absurd rfl hl
  | reading hc hk hf hr =>
    cases hr with
    | before hd ho hl' => exact absurd hl' hl
    | behind hd hw ho hp => exact List.forall_mem_cons.mpr ⟨hf.isBehind hd, hc.isBehind⟩

/-- **One step** behind the data of all layers finds no other data. -/
theorem Step.isBehind {s s' : ReadingState} (h : Step o s s') (hb : s.IsBehind) :
    s'.IsBehind ∧ s'.literal = s.literal := by
  have hf {f : Frame} {outer : List Frame} (e : s.frames = f :: outer) :
      f.IsBehind ∧ ∀ g ∈ outer, g.IsBehind := List.forall_mem_cons.mp (e ▸ hb)
  cases h with
  | pass hn hp => exact ⟨List.forall_mem_cons.mpr ⟨(hf rfl).1, (hf rfl).2⟩, rfl⟩
  | @key f f' outer c m l k ht =>
    obtain ⟨-, -, s, hs⟩ := (hf rfl).1.of_takes ht
    cases k <;> cases hs
  | announce ht =>
    obtain ⟨-, -, s, hs⟩ := (hf rfl).1.of_takes ht
    cases hs
  | precede ht hbefore =>
    obtain ⟨-, hbehind, -⟩ := (hf rfl).1.of_takes ht
    rw [hbefore] at hbehind
    cases hbehind
  | settle ht =>
    exact ⟨List.forall_mem_cons.mpr ⟨((hf rfl).1.of_takes ht).1, (hf rfl).2⟩, rfl⟩
  | unannounced ht =>
    exact ⟨List.forall_mem_cons.mpr ⟨((hf rfl).1.of_takes ht).1, (hf rfl).2⟩, rfl⟩
  | literal ht =>
    obtain ⟨-, -, s, hs⟩ := (hf rfl).1.of_takes ht
    cases hs
  | enter ht ho =>
    obtain ⟨-, -, s, rfl⟩ := (hf rfl).1.of_takes ht
    cases ho
  | leave => exact ⟨(hf rfl).2, rfl⟩

namespace MessageReader

variable {r r' : MessageReader o}

/-! ## Failures of a step -/

/-- A failure that the message is to blame for, and neither the caller nor the clock. -/
def IsOfMessage (error : MessageError) : Prop := error.category ≠ .usage ∧ error ≠ .overflow

theorem isOfMessage_of_within {limit : UInt64} {octets : Octets} {error : MessageError}
    (e : Compression.within limit octets = .error error) : IsOfMessage error := by
  unfold Compression.within at e
  split at e <;> cases e
  simp [IsOfMessage, MessageError.category]

theorem isOfMessage_of_take {expansion : Compression.Expansion} {count : Nat} {error : MessageError}
    (e : expansion.take count = .error error) : IsOfMessage error := by
  unfold Compression.Expansion.take Compression.Expansion.whole at e
  split at e
  · split at e <;> cases e
    simp [IsOfMessage, MessageError.category]
  · cases e

theorem isOfMessage_of_read {expansion : Compression.Expansion} {limit : UInt64} {error : MessageError}
    (e : expansion.read limit = .error error) : IsOfMessage error := by
  rcases Except.bind_eq_error.mp e with htake | ⟨octets, -, hwithin⟩
  · exact isOfMessage_of_take htake
  · exact isOfMessage_of_within hwithin

theorem isOfMessage_of_decompress {p : CompressedData} {limit : UInt64} {error : MessageError}
    (e : p.decompress limit = .error error) : IsOfMessage error := by
  unfold CompressedData.decompress at e
  split at e
  · exact isOfMessage_of_read e
  · exact isOfMessage_of_read e
  · exact isOfMessage_of_read e
  · cases e; simp [IsOfMessage, MessageError.category]

theorem isOfMessage_of_enterCompressed {p : CompressedData} {f : Frame} {outer : List Frame}
    {error : MessageError} (e : r.enterCompressed p f outer = .error error) : IsOfMessage error := by
  unfold enterCompressed at e
  split at e
  · split at e
    · cases e; simp [IsOfMessage, MessageError.category]
    · split at e
      · next hd => cases e; exact isOfMessage_of_decompress hd
      · cases e
  · cases e; simp [IsOfMessage, MessageError.category]

theorem isOfMessage_of_integrityOf {policy : Policy} {d : EncryptedData} {error : MessageError}
    (e : integrityOf policy d = .error error) : IsOfMessage error := by
  unfold integrityOf at e
  split at e
  · cases e
  split at e
  · cases e; simp [IsOfMessage, MessageError.category]
  split at e <;> cases e
  simp [IsOfMessage, MessageError.category]

theorem isOfMessage_verdict (attempts : List KeyAttempt) : IsOfMessage (Resolution.verdict attempts) := by
  unfold Resolution.verdict
  split
  · simp [IsOfMessage, MessageError.category]
  · split <;> simp [IsOfMessage, MessageError.category]

theorem isOfMessage_of_enterEncrypted {d : EncryptedData} {f : Frame} {outer : List Frame}
    {error : MessageError} (e : r.enterEncrypted d f outer = .error error) : IsOfMessage error := by
  unfold enterEncrypted at e
  split at e
  · split at e
    · next hi => cases e; exact isOfMessage_of_integrityOf hi
    · split at e
      · next hr =>
        cases e
        obtain ⟨attempts, -, rfl⟩ := EncryptedData.runs_of_resolveBy_eq_error hr
        exact isOfMessage_verdict attempts
      · cases e
  · cases e; simp [IsOfMessage, MessageError.category]

/-- No step fails for what the caller did, and none gives up where every check comes to a result. -/
theorem step_eq_error_isOfMessage {error : MessageError} (e : r.step = .error error) :
    IsOfMessage error ∨ error = .overflow ∧ ¬ o.verifier.Decides := by
  obtain ⟨f, outer, -, ⟨e', -, rfl⟩ | ⟨-, h, e⟩ | ⟨p, source, h, -, e⟩⟩ := step_eq_error e
  · cases e' <;> exact .inl (by simp [IsOfMessage, MessageError.category])
  · obtain ⟨-, ⟨r', e', -⟩ | ⟨e', x, hx, hv⟩⟩ | ⟨-, rejection, e'⟩ := leave_verdict (r := r) (f := f) h
    · rw [e] at e'; cases e'
    · rw [e] at e'
      cases e'
      obtain ⟨p, -, rfl⟩ := List.mem_map.mp hx
      exact .inr ⟨rfl, fun hd => by rw [hd] at hv; cases hv⟩
    · rw [e] at e'; cases e'; exact .inl (by simp [IsOfMessage, MessageError.category])
  · unfold take at e
    split at e
    · cases e
    split at e
    · cases e; exact .inl (by simp [IsOfMessage, MessageError.category])
    unfold act at e
    dsimp only at e
    split at e
    · cases e
    · cases e
    · exact .inl (isOfMessage_of_enterEncrypted e)
    · cases e; exact .inl (by simp [IsOfMessage, MessageError.category])
    · exact .inl (isOfMessage_of_enterCompressed e)
    · cases e
    · split at e
      · cases e
      · obtain ⟨rfl, obligation, pending, -, hv⟩ := settleSignature_eq_error e
        exact .inr ⟨rfl, fun hd => by rw [hd] at hv; cases hv⟩
    · cases e
    · cases e
    · cases e
    · cases e

/-! ## Requests -/

theorem settle_eq_error {error : MessageError} (e : r.settle = (.error error, r')) :
    (IsOfMessage error ∨ error = .overflow ∧ ¬ o.verifier.Decides) ∧ r'.poisoned = true := by
  fun_induction settle r with
  | case1 r hl => cases e
  | case2 r hl error' hs =>
    cases e
    exact ⟨step_eq_error_isOfMessage hs, rfl⟩
  | case3 r hl hs => cases e
  | case4 r hl next hs ih => exact ih e

theorem isBehind_settle (h : r.state.IsBehind) : r.settle.2.state.IsBehind ∧
    ∀ r', r.settle = (.ok (), r') → r'.literal = r.literal := by
  fun_induction settle r with
  | case1 r hl => exact ⟨h, fun r' e => by cases e; rfl⟩
  | case2 r hl error hs => exact ⟨List.forall_mem_nil _, fun r' e => by cases e⟩
  | case3 r hl hs => exact ⟨h, fun r' e => by cases e; rfl⟩
  | case4 r hl next hs ih =>
    obtain ⟨hb, hliteral⟩ := (step_of_eq_some hs).2.isBehind h
    obtain ⟨hbehind, hrest⟩ := ih hb
    exact ⟨hbehind, fun r' e => (hrest r' e).trans hliteral⟩

theorem isBehind_of_ofSource (e : ofSource o source = .ok r) : r.state.IsBehind := by
  have hreach := Reaches.of_ofSource e
  rw [ofSource_eq] at e
  split at e
  · next r₁ hs =>
    cases e
    by_cases hl : r.literal = []
    · have hframes : r.frames = [] := (settle_eq_ok hs).2.resolve_left (not_not.mpr hl)
      intro f hf
      rw [show r.state.frames = [] from hframes] at hf
      cases hf
    · cases hreach.holds with
      | reading hp hf h => exact h.isBehind hl
      | finished hp hf hs hl' => exact absurd hl' hl
      | failed hp hs hl' => exact absurd hl' hl
  · cases e

/-- **One request** leaves every open layer behind its data. -/
theorem isBehind_serveOne (h : r.state.IsBehind) (request : Request) :
    (r.serveOne request).2.state.IsBehind := by
  have hsettle := (isBehind_settle h).1
  cases request with
  | read n =>
    simp only [serveOne, MessageReader.read]
    split
    · exact h
    split
    · exact h
    split
    · next hs => rwa [hs] at hsettle
    · next hs =>
      rw [hs] at hsettle
      split <;> exact hsettle
  | finish =>
    simp only [serveOne, MessageReader.finish]
    split
    · exact h
    split
    · exact h
    split
    · exact h
    split
    · next hs => rwa [hs] at hsettle
    · next hs =>
      rw [hs] at hsettle
      split
      · exact hsettle
      · split <;> exact hsettle

/-- **Between requests** every open layer is behind its data. -/
theorem isBehind_serve (h : r.state.IsBehind) (requests : List Request) :
    (r.serve requests).2.state.IsBehind := by
  induction requests generalizing r with
  | nil => exact h
  | cons request requests ih => exact ih (isBehind_serveOne h request)

/-- Nothing is got out of a reader any more, whatever it is asked for: no octet and no metadata. -/
def Spent (r : MessageReader o) : Prop :=
  ∀ requests : List Request, (r.serve requests).1 = [] ∧
    (∀ n, ((r.serve requests).2.read n).1 = .error .poisoned) ∧
    (r.serve requests).2.finish.1 = .error .poisoned

theorem spent_of_poisoned (h : r.poisoned = true) : r.Spent := by
  obtain ⟨hread, hfinish⟩ := poisoned_after h
  have hserve : ∀ requests : List Request, r.serve requests = ([], r) := by
    intro requests
    induction requests with
    | nil => rfl
    | cons request requests ih =>
      cases request with
      | read n => simp [serve, serveOne, hread, given, ih]
      | finish => simp [serve, serveOne, hfinish, ih]
  intro requests
  rw [hserve]
  exact ⟨rfl, fun n => by rw [hread], by rw [hfinish]⟩

theorem spent_of_read {n : Nat} {error : MessageError} (e : r.read n = (.error error, r')) :
    r'.Spent := by
  unfold MessageReader.read at e
  split at e
  · next hp => cases e; exact spent_of_poisoned hp
  split at e
  · cases e
  split at e
  · next hs => cases e; exact spent_of_poisoned (settle_eq_error hs).2
  · split at e <;> cases e

theorem ended_of_settle (h : r.state.IsBehind) (hl : r.literal = []) (hs : r.settle = (.ok (), r')) :
    r'.literal = [] ∧ r'.metadata.finish r'.frames.isEmpty = .ok ⟨r'.metadata.roots⟩ := by
  have hliteral : r'.literal = [] := ((isBehind_settle h).2 r' hs).trans hl
  have hframes : r'.frames = [] := (settle_eq_ok hs).2.resolve_left (not_not.mpr hliteral)
  exact ⟨hliteral, by simp [MetadataBuilder.finish, hframes]⟩

/-- A finishing request that fails came too early and did nothing, or it spends the reader. -/
theorem finish_eq_error (h : r.state.IsBehind) {error : MessageError}
    (e : r.finish = (.error error, r')) :
    (error = .incomplete ∧ r.literal ≠ [] ∧ r' = r) ∨ (error ≠ .incomplete ∧ r'.Spent) := by
  unfold MessageReader.finish at e
  split at e
  · next hp => cases e; exact .inr ⟨by rintro ⟨⟩, spent_of_poisoned hp⟩
  split at e
  · cases e
  split at e
  · next hl => cases e; exact .inl ⟨rfl, hl, rfl⟩
  next hl =>
  split at e
  · next hs =>
    cases e
    obtain ⟨hcause, hp⟩ := settle_eq_error hs
    refine .inr ⟨?_, spent_of_poisoned hp⟩
    rintro rfl
    obtain ⟨husage, -⟩ | ⟨⟨⟩, -⟩ := hcause
    exact husage rfl
  · next hs =>
    -- going on found no other data, so neither of the late failures is met
    obtain ⟨hliteral, hmetadata⟩ := ended_of_settle h (not_not.mp hl) hs
    rw [if_neg (not_not.mpr hliteral), hmetadata] at e
    cases e

/-- **Failures are final, and asking too early does nothing.** Whatever was asked of a reader that was
opened,

* once reading fails, nothing is got out of it any more;
* so it is once finishing fails for anything but data that was not read;
* finishing that fails for data that was not read leaves the reader as it is;
* metadata that finishing may ask for is there: going on finds no data behind the data, and stops
  only where every layer has ended. -/
theorem failures_of_ofSource {o : ReadingContext} {source : PacketSource} {opened : MessageReader o}
    (e : ofSource o source = .ok opened) (requests : List Request) :
    let r := (opened.serve requests).2
    (∀ n error, (r.read n).1 = .error error → (r.read n).2.Spent) ∧
    (∀ error, r.finish.1 = .error error → error ≠ .incomplete → r.finish.2.Spent) ∧
    (r.finish.1 = .error .incomplete → r.literal ≠ [] ∧ r.finish.2 = r) ∧
    ∀ r', r.literal = [] → r.settle = (.ok (), r') →
      r'.literal = [] ∧ r'.metadata.finish r'.frames.isEmpty = .ok ⟨r'.metadata.roots⟩ := by
  have h := isBehind_serve (isBehind_of_ofSource e) requests
  refine ⟨fun n error he => spent_of_read (Prod.ext he rfl), fun error he hne => ?_, fun he => ?_,
    fun r' => ended_of_settle h⟩
  · exact ((finish_eq_error h (Prod.ext he rfl)).resolve_left fun hi => hne hi.1).2
  · obtain ⟨-, hl, hr⟩ | ⟨hne, -⟩ := finish_eq_error h (Prod.ext he rfl)
    · exact ⟨hl, hr⟩
    · exact absurd rfl hne

/-- An octet of data and behind it other data, which no message has. -/
def doubledPackets : List Packet :=
  [.literalData ⟨.binary, [], 0, [0x68]⟩, .literalData ⟨.binary, [], 0, [0x69]⟩]

/-- A request for the metadata that comes too early changes nothing; the other data spends the reader. -/
theorem failures_of_ofSource_doubled :
    ∃ opened, ofSource .keyless (.packets doubledPackets) = .ok opened ∧ opened.finish.2 = opened ∧
      (opened.read 1).1 = .ok [0x68] ∧ (opened.serve [.read 1]).2.finish.2.Spent := by
  obtain ⟨opened, rejection, hs, hp, hf, hl, hstep⟩ : ∃ opened rejection,
      (start .keyless (.packets doubledPackets)).settle = (.ok (), opened) ∧
      opened.poisoned = false ∧ opened.finished = none ∧ opened.literal = [0x68] ∧
      (opened.release 1).step = .error (.malformed rejection) :=
    ⟨_, _, (settle_of_step rfl rfl).trans (by rw [MessageReader.settle, if_pos (by decide)]),
      rfl, rfl, rfl, rfl⟩
  have hopen : ofSource .keyless (.packets doubledPackets) = .ok opened := by rw [ofSource_eq, hs]
  have hearly : opened.finish = (.error .incomplete, opened) :=
    finish_of_literal hp hf (settle_of_settle hs) (by simp [hl])
  have hread : opened.read 1 = (.ok [0x68], opened.release 1) := by
    simpa [hl] using read_of_literal (n := 1) hp (by decide) (by simp [hl])
  have hlate : (opened.release 1).finish = (.error (.malformed rejection), (opened.release 1).poison) := by
    have hl' : (opened.release 1).literal = [] := by simp [release, hl]
    have hp' : (opened.release 1).poisoned = false := hp
    have hf' : (opened.release 1).finished = none := hf
    simp [MessageReader.finish, hp', hf', hl', settle_of_error hl' hstep]
  refine ⟨opened, hopen, ((failures_of_ofSource hopen []).2.2.1 (congrArg Prod.fst hearly)).2,
    congrArg Prod.fst hread, ?_⟩
  refine (failures_of_ofSource hopen [.read 1]).2.1 (.malformed rejection) ?_ (by rintro ⟨⟩)
  simp [serve, serveOne, hread, hlate]

end MessageReader

end OpenPGP
