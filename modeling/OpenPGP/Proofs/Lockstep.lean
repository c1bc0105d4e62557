import OpenPGP.Proofs.Schedules
/-!
# Readers that answer alike

What a caller is told follows from where going on leads: to data, to the end or to a failure. Readers
that are related in such a way that going on comes to the same for both, and leaves them related, cannot
be told apart by any requests; what the relation says about the metadata may be less than that they are
the same (`Lockstep`). The first of two readers may also fail in ways of its own, and then nothing more
is said.

Results:
* `Lockstep.read`, `Lockstep.finish`, `Lockstep.readAll`: one request, and reading everything.
* `Lockstep.answers`: any requests.
* `Lockstep.session`, `Lockstep.readSource`: opening a source and reading it.
-/
namespace OpenPGP

/-! ## Answers -/

namespace MessageReader

/-- What a caller is told. -/
inductive Answer where
  | octets (result : Except MessageError Octets)
  | metadata (result : Except MessageError MessageMetadata)

/-- An answer of which the metadata is looked at through `view`. -/
def Answer.through (view : MessageMetadata → MessageMetadata) : Answer → Answer
  | octets result => octets result
  | metadata result => metadata (result.map view)

/-- Whether a failure of some kind is what a caller is told. -/
def Answer.Fails (p : MessageError → Prop) : Answer → Prop
  | octets result => ∃ e, result = .error e ∧ p e
  | metadata result => ∃ e, result = .error e ∧ p e

@[simp] theorem Answer.through_id : Answer.through id = id := by
  funext a
  cases a <;> simp [through]

variable {o : ReadingContext}

/-- The answer to a request, and the reader behind it. -/
def answer (r : MessageReader o) : Request → Answer × MessageReader o
  | .read n => (.octets (r.read n).1, (r.read n).2)
  | .finish => (.metadata r.finish.1, r.finish.2)

/-- The answers to requests one after the other. -/
def answers (r : MessageReader o) : List Request → List Answer
  | [] => []
  | request :: requests => (r.answer request).1 :: (r.answer request).2.answers requests

end MessageReader

open MessageReader

/-- Opens a message and answers some requests: the failure to open it, or the answers. -/
def session (o : ReadingContext) (source : PacketSource) (requests : List Request) :
    Except MessageError (List Answer) :=
  (ofSource o source).map (·.answers requests)

/-- The literal data and the metadata of a whole message that comes from a source of packets. -/
def readSource (o : ReadingContext) (source : PacketSource) :
    Except MessageError (Octets × MessageMetadata) := do
  let r ← ofSource o source
  match r.readAll with
  | (_, .error error, _) => throw error
  | (octets, .ok (), r) => return (octets, ← r.finish.1)

/-- Whether a failure of some kind is met by opening or by one of the requests. -/
def SessionFails (p : MessageError → Prop) (session : Except MessageError (List Answer)) : Prop :=
  (∃ e, session = .error e ∧ p e) ∨ ∃ answers, session = .ok answers ∧ ∃ a ∈ answers, a.Fails p

theorem not_sessionFails {p : MessageError → Prop} (hp : ∀ e, ¬ p e)
    (session : Except MessageError (List Answer)) : ¬ SessionFails p session := by
  rintro (⟨e, -, h⟩ | ⟨_, -, a, -, h⟩)
  · exact hp e h
  · cases a <;> exact h.elim fun e h => hp e h.2

/-! ## Lockstep -/

/-- Going on comes to the same for related readers, and those it leads to are related again, unless the
first fails in a way of its own. `view` is what the relation says about metadata. -/
structure Lockstep {o o' : ReadingContext} (own : MessageError → Prop)
    (view : MessageMetadata → MessageMetadata) (R : MessageReader o → MessageReader o' → Prop) : Prop where
  settle : ∀ {r r'}, R r r' → (∃ result next next',
    r.settle = (result, next) ∧ r'.settle = (result, next') ∧ R next next') ∨
      ∃ e next, r.settle = (.error e, next) ∧ own e
  release : ∀ {r r'}, R r r' → ∀ n, R (r.release n) (r'.release n)
  /-- Metadata that is given out is taken from the tree. -/
  give : ∀ {r r'}, R r r' → ∀ m m', m'.map view = m.map view →
    R { r with metadata := .empty, finished := m } { r' with metadata := .empty, finished := m' }
  ended : ∀ {r r'}, R r r' → r'.frames.isEmpty = r.frames.isEmpty
  metadata : ∀ {r r'}, R r r' → view ⟨r'.metadata.roots⟩ = view ⟨r.metadata.roots⟩
  literal : ∀ {r r'}, R r r' → r'.literal = r.literal
  poisoned : ∀ {r r'}, R r r' → r'.poisoned = r.poisoned
  finished : ∀ {r r'}, R r r' → r'.finished.map view = r.finished.map view

namespace Lockstep

variable {o o' : ReadingContext} {own : MessageError → Prop} {view : MessageMetadata → MessageMetadata}
  {R : MessageReader o → MessageReader o' → Prop} {r : MessageReader o} {r' : MessageReader o'}

theorem read (l : Lockstep own view R) (h : R r r') (n : Nat) :
    ((r'.read n).1 = (r.read n).1 ∧ R (r.read n).2 (r'.read n).2) ∨
      ∃ e, (r.read n).1 = .error e ∧ own e := by
  unfold MessageReader.read
  rw [l.poisoned h]
  split
  · exact .inl ⟨rfl, h⟩
  split
  · exact .inl ⟨rfl, h⟩
  obtain ⟨result, next, next', hs, hs', hsettled⟩ | ⟨e, next, hs, he⟩ := l.settle h
  · rw [hs, hs']
    cases result with
    | error e => exact .inl ⟨rfl, hsettled⟩
    | ok _ =>
      dsimp only
      rw [l.literal hsettled]
      split
      · exact .inl ⟨rfl, hsettled⟩
      · exact .inl ⟨rfl, l.release hsettled n⟩
  · rw [hs]
    exact .inr ⟨e, rfl, he⟩

theorem finish (l : Lockstep own view R) (h : R r r') :
    (r'.finish.1.map view = r.finish.1.map view ∧ R r.finish.2 r'.finish.2) ∨
      ∃ e, r.finish.1 = .error e ∧ own e := by
  have hfinished := l.finished h
  unfold MessageReader.finish
  rw [l.poisoned h, l.literal h]
  split
  · exact .inl ⟨rfl, h⟩
  cases hf : r.finished with
  | some m =>
    rw [hf] at hfinished
    obtain ⟨m', hf', hm⟩ := Option.map_eq_some_iff.mp hfinished
    rw [hf']
    exact .inl ⟨congrArg Except.ok hm, h⟩
  | none =>
    rw [hf] at hfinished
    rw [Option.map_eq_none_iff.mp hfinished]
    dsimp only
    split
    · exact .inl ⟨rfl, h⟩
    obtain ⟨result, next, next', hs, hs', hsettled⟩ | ⟨e, next, hs, he⟩ := l.settle h
    · rw [hs, hs']
      cases result with
      | error e => exact .inl ⟨rfl, hsettled⟩
      | ok _ =>
        dsimp only
        by_cases hl : next.literal = []
        · rw [if_neg (not_not.mpr hl), if_neg (not_not.mpr ((l.literal hsettled).trans hl)),
            MetadataBuilder.finish, MetadataBuilder.finish, l.ended hsettled]
          cases next.frames.isEmpty with
          | false => exact .inl ⟨rfl, l.give hsettled _ _ (l.finished hsettled)⟩
          | true =>
            have hroots := l.metadata hsettled
            exact .inl ⟨congrArg Except.ok hroots, l.give hsettled (some ⟨next.metadata.roots⟩)
              (some ⟨next'.metadata.roots⟩) (congrArg some hroots)⟩
        · rw [if_pos hl, if_pos (l.literal hsettled ▸ hl)]
          exact .inl ⟨rfl, hsettled⟩
    · rw [hs]
      exact .inr ⟨e, rfl, he⟩

/-- **Reading everything.** -/
theorem readAll (l : Lockstep own view R) (h : R r r') : (∃ octets result last last',
    r.readAll = (octets, result, last) ∧ r'.readAll = (octets, result, last') ∧ R last last') ∨
      ∃ e, r.readAll.2.1 = .error e ∧ own e := by
  fun_induction MessageReader.readAll r generalizing r' with
  | case1 r hp =>
    rw [MessageReader.readAll, l.poisoned h, if_pos hp]
    exact .inl ⟨_, _, _, _, rfl, rfl, h⟩
  | case2 r hp error next hs =>
    obtain ⟨result, next, next', e, hs', hsettled⟩ | ⟨e, next, hs', he⟩ := l.settle h
    · cases hs.symm.trans e
      rw [readAll_of_error ((l.poisoned h).trans (by simpa using hp)) hs']
      exact .inl ⟨_, _, _, _, rfl, rfl, hsettled⟩
    · cases hs.symm.trans hs'
      exact .inr ⟨_, rfl, he⟩
  | case3 r hp next hs hl =>
    obtain ⟨result, next, next', e, hs', hsettled⟩ | ⟨e, next, hs', he⟩ := l.settle h
    · cases hs.symm.trans e
      rw [readAll_of_done ((l.poisoned h).trans (by simpa using hp)) hs' ((l.literal hsettled).trans hl)]
      exact .inl ⟨_, _, _, _, rfl, rfl, hsettled⟩
    · cases hs.symm.trans hs'
  | case4 r hp next hs hl behind result last hall ih =>
    obtain ⟨_, next, next', e, hs', hsettled⟩ | ⟨e, next, hs', he⟩ := l.settle h
    · cases hs.symm.trans e
      have hliteral := l.literal hsettled
      obtain ⟨octets, result', last₁, last', hrest, hrest', hlast⟩ | ⟨e, hrest, he⟩ :=
        ih (l.release hsettled next.literal.length)
      · cases hall.symm.trans hrest
        rw [← hliteral] at hrest' hl ⊢
        rw [readAll_of_more ((l.poisoned h).trans (by simpa using hp)) hs' hl hrest']
        exact .inl ⟨_, _, _, _, rfl, rfl, hlast⟩
      · rw [hall] at hrest
        exact .inr ⟨e, hrest, he⟩
    · cases hs.symm.trans hs'

/-- **One request.** -/
theorem answer (l : Lockstep own view R) (h : R r r') (request : Request) :
    ((r'.answer request).1.through view = (r.answer request).1.through view ∧
      R (r.answer request).2 (r'.answer request).2) ∨ (r.answer request).1.Fails own := by
  cases request with
  | read n => exact (l.read h n).imp (fun h => ⟨congrArg Answer.octets h.1, h.2⟩) id
  | finish => exact (l.finish h).imp (fun h => ⟨congrArg Answer.metadata h.1, h.2⟩) id

/-- **Any requests.** -/
theorem answers (l : Lockstep own view R) (h : R r r') (requests : List Request)
    (hn : ∀ a ∈ r.answers requests, ¬ a.Fails own) :
    (r'.answers requests).map (Answer.through view) = (r.answers requests).map (Answer.through view) := by
  induction requests generalizing r r' with
  | nil => rfl
  | cons request requests ih =>
    obtain ⟨hhere, hn⟩ := List.forall_mem_cons.mp hn
    obtain ⟨hanswer, hnext⟩ := (l.answer h request).resolve_right hhere
    rw [MessageReader.answers, MessageReader.answers, List.map_cons, List.map_cons, hanswer, ih hnext hn]

variable {source source' : PacketSource}

theorem ofSource (l : Lockstep own view R) (h : R (start o source) (start o' source')) :
    SameUnless own R (MessageReader.ofSource o source) (MessageReader.ofSource o' source') := by
  rw [ofSource_eq, ofSource_eq]
  obtain ⟨result, next, next', hs, hs', hsettled⟩ | ⟨e, next, hs, he⟩ := l.settle h
  · rw [hs, hs']
    cases result with
    | error e => exact .same (.error e)
    | ok _ => exact .same (.ok hsettled)
  · rw [hs]
    exact .fails he _

/-- Opening and asking for something related readers answer alike. -/
theorem opened (l : Lockstep own view R) (h : R (start o source) (start o' source'))
    {ask : MessageReader o → List Answer} {ask' : MessageReader o' → List Answer}
    (hask : ∀ {r r'}, R r r' → (∀ a ∈ ask r, ¬ a.Fails own) →
      (ask' r').map (Answer.through view) = (ask r).map (Answer.through view))
    (hn : ¬ SessionFails own ((MessageReader.ofSource o source).map ask)) :
    ((MessageReader.ofSource o' source').map ask').map (List.map (Answer.through view)) =
      ((MessageReader.ofSource o source).map ask).map (List.map (Answer.through view)) := by
  have hopen := l.ofSource h
  generalize MessageReader.ofSource o source = x at hopen hn
  generalize MessageReader.ofSource o' source' = y at hopen
  cases hopen with
  | fails he => exact absurd (.inl ⟨_, rfl, he⟩) hn
  | same hopen =>
    cases hopen with
    | error e => rfl
    | ok h =>
      refine congrArg Except.ok (hask h fun a ha hfails => hn ?_)
      exact .inr ⟨_, rfl, a, ha, hfails⟩

/-- Opening and answering any requests. -/
theorem session (l : Lockstep own view R) (h : R (start o source) (start o' source')) (requests : List Request)
    (hn : ¬ SessionFails own (OpenPGP.session o source requests)) :
    (OpenPGP.session o' source' requests).map (List.map (Answer.through view)) =
      (OpenPGP.session o source requests).map (List.map (Answer.through view)) :=
  l.opened h (fun h => l.answers h requests) hn

/-- Opening, reading everything and finishing. -/
theorem readSource (l : Lockstep own view R) (h : R (start o source) (start o' source'))
    (hn : ¬ ∃ e, OpenPGP.readSource o source = .error e ∧ own e) :
    (OpenPGP.readSource o' source').map (Prod.map id view) =
      (OpenPGP.readSource o source).map (Prod.map id view) := by
  unfold OpenPGP.readSource at hn ⊢
  have hopen := l.ofSource h
  generalize MessageReader.ofSource o source = x at hopen hn
  generalize MessageReader.ofSource o' source' = y at hopen
  cases hopen with
  | fails he => exact absurd ⟨_, rfl, he⟩ hn
  | same hopen =>
  cases hopen with
  | error e => rfl
  | @ok r r' h =>
    simp only [bind, Except.bind] at hn ⊢
    obtain ⟨octets, result, last, last', hall, hall', hlast⟩ | ⟨e, hall, he⟩ := l.readAll h
    · simp only [hall, hall'] at hn ⊢
      cases result with
      | error e => rfl
      | ok _ =>
        dsimp only at hn ⊢
        obtain ⟨hfinish, -⟩ | ⟨e, hfinish, he⟩ := l.finish hlast
        · cases hm : last.finish.1 <;> cases hm' : last'.finish.1 <;> rw [hm, hm'] at hfinish
          · exact congrArg Except.error (Except.error.inj hfinish)
          · cases hfinish
          · cases hfinish
          · exact congrArg (fun m => Except.ok (octets, m)) (Except.ok.inj hfinish)
        · exact absurd ⟨e, by rw [hfinish], he⟩ hn
    · refine absurd ⟨e, ?_, he⟩ hn
      generalize r.readAll = all at hall
      obtain ⟨octets, result, last⟩ := all
      obtain rfl : result = .error e := hall
      rfl

end Lockstep

end OpenPGP
