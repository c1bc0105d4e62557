import OpenPGP.Proofs.Steps
/-!
# Every run ends

A container may expand to more packets than it replaces, to a copy of itself even, so nothing that a
reader holds gets smaller from step to step. What descends is the work of the open layers, outermost
first: a step takes from the innermost layer, which may open a layer of any size inside but not
change those around it, and the number of layers is bounded.

Which steps are taken depends on the open layers alone, not on the data that was given out or the tree
so far; and not on the signatures that are owed, except that reading may give up at one. So the number of
steps that are possible is bounded by one number, whatever a caller asks for in between.

Results:
* `MessageReader.step_layers`: the open layers decide what a step does to the open layers, unless
  reading gives up.
* `MessageReader.stops_of_settle`: the loop that opening, reading and finishing repeat is `settle`.
* `MessageReader.steps_end`: from every state so many steps are possible and no more.
-/
namespace OpenPGP.MessageReader

variable {o : ReadingContext} {r r' : MessageReader o}

/-! ## Layers decide -/

/-- Two readers with the same layers open. -/
def SameLayers (r r' : MessageReader o) : Prop := r'.frames = r.frames

theorem enterCompressed_layers (r r' : MessageReader o) (packet : CompressedData) (frame : Frame)
    (outer : List Frame) : SameOutcome SameLayers
      (r.enterCompressed packet frame outer) (r'.enterCompressed packet frame outer) := by
  unfold enterCompressed
  split
  · split
    · exact .error _
    split
    · exact .error _
    · exact .ok rfl
  · exact .error _

theorem enterEncrypted_layers (r r' : MessageReader o) (data : EncryptedData) (frame : Frame)
    (outer : List Frame) : SameOutcome SameLayers
      (r.enterEncrypted data frame outer) (r'.enterEncrypted data frame outer) := by
  unfold enterEncrypted
  split
  · split
    · exact .error _
    split
    · exact .error _
    · exact .ok rfl
  · exact .error _

theorem settleSignature_layers (hf : SameLayers r r') (hc : r'.correlation = .empty) (s : Signature) :
    SameUnless MessageError.IsOverflow SameLayers (r.settleSignature s) (r'.settleSignature s) := by
  have hs : r'.settleSignature s = .ok r' := by
    obtain ⟨frames, correlation, metadata, literal, poisoned, finished, nested⟩ := r'
    obtain rfl := hc
    rfl
  rw [hs]
  cases e : r.settleSignature s with
  | error error =>
    obtain ⟨rfl, -⟩ := settleSignature_eq_error e
    exact .fails (p := MessageError.IsOverflow) rfl _
  | ok next => exact .same (.ok (hf.trans (frames_settleSignature e).symm))

theorem act_layers (hc : r'.correlation = .empty) (beforeData : Bool) (packet : Packet) (frame : Frame)
    (outer : List Frame) (h : outer.length + 1 ≤ o.maxLayers) : SameUnless MessageError.IsOverflow SameLayers
      (r.act beforeData packet frame outer h) (r'.act beforeData packet frame outer h) := by
  unfold act
  dsimp only
  split
  · exact .same (.ok rfl)
  · exact .same (.ok rfl)
  · exact .same (enterEncrypted_layers r r' _ _ _)
  · exact .same (.error _)
  · exact .same (enterCompressed_layers r r' _ _ _)
  · exact .same (.ok rfl)
  · split
    · exact .same (.ok rfl)
    · have hlayers : SameLayers (r.withFrames (frame :: outer) h) (r'.withFrames (frame :: outer) h) := rfl
      exact settleSignature_layers hlayers hc _
  · exact .same (.ok rfl)
  · exact .same (.ok rfl)
  · exact .same (.ok rfl)
  · exact .same (.ok rfl)

theorem take_layers (hc : r'.correlation = .empty) (packet : Packet) (frame : Frame) (outer : List Frame)
    (h : outer.length + 1 ≤ o.maxLayers) : SameUnless MessageError.IsOverflow SameLayers
      (r.take packet frame outer h) (r'.take packet frame outer h) := by
  unfold take
  split
  · exact .same (.ok rfl)
  · split
    · exact .same (.error _)
    · exact act_layers hc _ _ _ _ _

theorem leave_layers (hc : r'.correlation = .empty) (frame : Frame) (outer : List Frame)
    (h : outer.length ≤ o.maxLayers) : SameUnless MessageError.IsOverflow SameLayers
      (r.leave frame outer h) (r'.leave frame outer h) := by
  have hsettled : (r'.correlation.settlePreceding o.verifier outer.length).1 = [] := by rw [hc]; rfl
  unfold leave
  split
  · exact .same (.error _)
  split
  · exact .same (.error _)
  · dsimp only
    rw [hsettled]
    split
    · exact .fails (p := MessageError.IsOverflow) rfl _
    · exact .same (.ok rfl)

/-- The open layers decide whether a step is possible, whether it fails, and what is open behind it, but
for the signatures that are owed. -/
theorem step_layers (h : SameLayers r r') (hc : r'.correlation = .empty) :
    SameUnless MessageError.IsOverflow (Option.Rel SameLayers) r.step r'.step :=
  step_of_frames_eq h (fun f outer hb _ => leave_layers hc f outer hb) fun p f outer hb _ =>
    take_layers hc p f outer hb

/-- Where a reader can take a step, so can one with the same open layers that owes nothing. -/
theorem step_eq_some_of_layers {next : MessageReader o} (h : SameLayers r r')
    (hc : r'.correlation = .empty) (hs : r.step = .ok (some next)) :
    ∃ next', r'.step = .ok (some next') ∧ SameLayers next next' := by
  have hstep := step_layers h hc
  rw [hs] at hstep
  obtain ⟨_, hs', ⟨hnext⟩⟩ := hstep.of_ok
  exact ⟨_, hs', hnext⟩

/-- The reader, if it owed nothing. -/
def clearOfDebt (r : MessageReader o) : MessageReader o := { r with correlation := .empty }

/-! ## Runs -/

/-- `n` steps lead from one reader to another. Before, between and behind them anything may have
happened that leaves the open layers as they are: data given out, or the metadata. -/
inductive Advances : Nat → MessageReader o → MessageReader o → Prop
  | stay {r r' : MessageReader o} (h : SameLayers r r') : Advances 0 r r'
  | step {n : Nat} {r ready next r' : MessageReader o} (h : SameLayers r ready)
      (hs : ready.step = .ok (some next)) (hn : Advances n next r') : Advances (n + 1) r r'

theorem Advances.of_layers {n : Nat} {last : MessageReader o} (h : SameLayers r r')
    (ha : Advances n r' last) : Advances n r last := by
  cases ha with
  | stay h' => exact .stay (h'.trans h)
  | step h' hs hn => exact .step (h'.trans h) hs hn

/-- **Every run ends.** There is a number of steps that is possible, and no more are. -/
theorem exists_bound (r : MessageReader o) : ∃ bound, (∀ n r', Advances n r r' → n ≤ bound) ∧
    ∃ last, Advances bound r last ∧ (last.step = .ok none ∨ ∃ error, last.step = .error error) := by
  -- induction on the work that is left, which every step lowers
  induction hw : r.work using (NestedWork.wellFounded_lt o.maxLayers).induction generalizing r with
  | h work ih =>
    subst hw
    -- the reader that owes nothing goes farthest
    have hclear : SameLayers r r.clearOfDebt := rfl
    have htake {ready next : MessageReader o} (h : SameLayers r ready) (hs : ready.step = .ok (some next)) :
        ∃ next', r.clearOfDebt.step = .ok (some next') ∧ SameLayers next next' := by
      have hlayers : SameLayers ready r.clearOfDebt := h.symm
      exact step_eq_some_of_layers hlayers rfl hs
    have hstay {n : Nat} {r' : MessageReader o} (ha : Advances n r r')
        (hs : ∀ next, r.clearOfDebt.step ≠ .ok (some next)) : n = 0 := by
      cases ha with
      | stay => rfl
      | step h hs' hn =>
        obtain ⟨next, hnext, -⟩ := htake h hs'
        exact absurd hnext (hs next)
    cases hs : r.clearOfDebt.step with
    | ok next =>
      cases next with
      | some next =>
        have hless : NestedWork.lt next.work r.clearOfDebt.work := work_step_lt hs
        obtain ⟨bound, hbound, last, hlast, hended⟩ := ih next.work hless next rfl
        refine ⟨bound + 1, fun n r' ha => ?_, last, .step hclear hs hlast, hended⟩
        cases ha with
        | stay => exact Nat.zero_le _
        | step h hs' hn =>
          obtain ⟨next', hnext', hlayers⟩ := htake h hs'
          obtain rfl : next' = next := Option.some.inj (Except.ok.inj (hnext'.symm.trans hs))
          exact Nat.succ_le_succ (hbound _ _ (hn.of_layers hlayers.symm))
      | none =>
        exact ⟨0, fun n r' ha => Nat.le_of_eq (hstay ha (by simp [hs])), r.clearOfDebt, .stay hclear, .inl hs⟩
    | error error =>
      exact ⟨0, fun n r' ha => Nat.le_of_eq (hstay ha (by simp [hs])), r.clearOfDebt, .stay hclear,
        .inr ⟨error, hs⟩⟩

/-! ## Loops -/

/-- The loop of opening, reading and finishing: steps one after the other, each taken where no data
waits. -/
inductive Loops : Nat → MessageReader o → MessageReader o → Prop
  | nil (r : MessageReader o) : Loops 0 r r
  | step {n : Nat} {r next r' : MessageReader o} (hl : r.literal = [])
      (hs : r.step = .ok (some next)) (hn : Loops n next r') : Loops (n + 1) r r'

/-- Why the loop is left, with what result and in what state. -/
inductive Stops (r : MessageReader o) : Except MessageError Unit × MessageReader o → Prop
  /-- Data waits. -/
  | data (hl : r.literal ≠ []) : Stops r (.ok (), r)
  /-- Every layer has ended. -/
  | ended (hl : r.literal = []) (hs : r.step = .ok none) : Stops r (.ok (), r)
  | failed {error : MessageError} (hl : r.literal = []) (hs : r.step = .error error) :
      Stops r (.error error, r.poison)

theorem Loops.advances {n : Nat} (h : Loops n r r') : Advances n r r' := by
  induction h with
  | nil => exact .stay rfl
  | step hl hs hn ih => exact .step rfl hs ih

/-- Going on is the loop, left where it has to be. -/
theorem stops_of_settle (r : MessageReader o) : ∃ n last, Loops n r last ∧ last.Stops r.settle := by
  fun_induction settle r with
  | case1 r hl => exact ⟨0, r, .nil r, .data hl⟩
  | case2 r hl error hs => exact ⟨0, r, .nil r, .failed (Decidable.not_not.mp hl) hs⟩
  | case3 r hl hs => exact ⟨0, r, .nil r, .ended (Decidable.not_not.mp hl) hs⟩
  | case4 r hl next hs ih =>
    obtain ⟨n, last, hloop, hstop⟩ := ih
    exact ⟨n + 1, last, .step (Decidable.not_not.mp hl) hs hloop, hstop⟩

/-- **From every state only so many steps are possible.** Whatever a reader has open and whatever is
given out in between, `bound` steps can be taken until every layer has ended or a step fails, and
never more. Within them the loop of opening, reading and finishing comes to data, to the end or to a
failure, and `settle` is that loop. -/
theorem steps_end (r : MessageReader o) : ∃ bound, (∀ n r', Advances n r r' → n ≤ bound) ∧
    (∃ last, Advances bound r last ∧ (last.step = .ok none ∨ ∃ error, last.step = .error error)) ∧
    ∃ n ≤ bound, ∃ last, Loops n r last ∧ last.Stops r.settle := by
  obtain ⟨bound, hbound, hend⟩ := r.exists_bound
  obtain ⟨n, last, hloop, hstop⟩ := r.stops_of_settle
  exact ⟨bound, hbound, hend, n, hbound _ _ hloop.advances, last, hloop, hstop⟩

end OpenPGP.MessageReader
