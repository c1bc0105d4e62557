import OpenPGP.Proofs.Judgement
/-!
# Signatures are results

What a caller is told does not depend on the judge, as long as every check of a signature comes to a
result. A reader gives up only at a check whose sum of clock and skew is out of range. Two sessions are
compared by way of a third before a judge that knows no certificates: its checks end before the clock is
looked at, so it cannot give up.

Results:
* `MessageReader.not_fails_answer`: a reader whose checks come to results does not give up.
* `session_unknowing`, `sessionInTurn_unknowing`: a session that does not give up is that of the judge who
  knows nothing.
* `session_judgedBy`: every schedule of requests before any judges.
* `not_session_judgedBy`: a message that is read or not by the skew that is allowed.
-/
namespace OpenPGP

namespace MessageReader

variable {o : ReadingContext} {r : MessageReader o}

/-! ## Giving up -/

section
variable (hv : o.verifier.Decides)

include hv

/-- Where every check comes to a result, going on does not give up. -/
theorem not_isOverflow_of_settle {last : MessageReader o} {error : MessageError}
    (hs : r.settle = (.error error, last)) : ¬ error.IsOverflow := by
  intro h
  obtain ⟨⟨-, hne⟩ | ⟨-, hne⟩, -⟩ := settle_eq_error hs
  · exact hne h
  · exact hne hv

theorem not_isOverflow_of_read {n : Nat} {error : MessageError} (e : (r.read n).1 = .error error) :
    ¬ error.IsOverflow := by
  unfold MessageReader.read at e
  split at e
  · cases e
    intro h
    cases h
  split at e
  · cases e
  split at e
  · next hs =>
    cases e
    exact not_isOverflow_of_settle hv hs
  · split at e <;> cases e

theorem not_isOverflow_of_finish {error : MessageError} (e : r.finish.1 = .error error) :
    ¬ error.IsOverflow := by
  unfold MessageReader.finish at e
  split at e
  · cases e
    intro h
    cases h
  split at e
  · cases e
  split at e
  · cases e
    intro h
    cases h
  split at e
  · next hs =>
    cases e
    exact not_isOverflow_of_settle hv hs
  split at e
  · cases e
    intro h
    cases h
  split at e
  · cases e
  · next hfinish =>
    cases e
    unfold MetadataBuilder.finish at hfinish
    split at hfinish <;> cases hfinish
    intro h
    cases h

/-- **No request** is given up at. -/
theorem not_fails_answer (r : MessageReader o) (request : Request) :
    ¬ (r.answer request).1.Fails MessageError.IsOverflow := by
  rintro h
  cases request with
  | read n =>
    obtain ⟨error, he, hoverflow⟩ := h
    exact not_isOverflow_of_read hv he hoverflow
  | finish =>
    obtain ⟨error, he, hoverflow⟩ := h
    exact not_isOverflow_of_finish hv he hoverflow

theorem not_fails_answers (r : MessageReader o) (requests : List Request) :
    ∀ a ∈ r.answers requests, ¬ a.Fails MessageError.IsOverflow := by
  induction requests generalizing r with
  | nil => exact List.forall_mem_nil _
  | cons request requests ih => exact List.forall_mem_cons.mpr ⟨not_fails_answer hv r request, ih _⟩

theorem not_isOverflow_of_ofSource {source : PacketSource} {error : MessageError}
    (e : ofSource o source = .error error) : ¬ error.IsOverflow := by
  rw [ofSource_eq] at e
  split at e
  · cases e
  · next hs =>
    cases e
    exact not_isOverflow_of_settle hv hs

end

theorem not_fails_answersInTurn {requests : List (Judge × Request)}
    (hr : ∀ x ∈ requests, (o.judgedBy x.1).verifier.Decides) :
    ∀ a ∈ r.answersInTurn requests, ¬ a.Fails MessageError.IsOverflow := by
  induction requests generalizing o r with
  | nil => exact List.forall_mem_nil _
  | cons request requests ih =>
    obtain ⟨j, request⟩ := request
    obtain ⟨hhere, hr⟩ := List.forall_mem_cons.mp hr
    exact List.forall_mem_cons.mpr ⟨not_fails_answer hhere _ request, ih hr⟩

end MessageReader

open MessageReader

/-- Whether opening or one of the requests gives up. -/
def GivesUp (session : Except MessageError (List Answer)) : Prop :=
  SessionFails MessageError.IsOverflow session

/-- Opens a message before one judge and answers each request before its own. -/
def sessionInTurn (o : ReadingContext) (opening : Judge) (source : PacketSource)
    (requests : List (Judge × Request)) : Except MessageError (List Answer) :=
  (ofSource (o.judgedBy opening) source).map (·.answersInTurn requests)

/-- Whether the sum of the clock and the skew is a time. -/
def Judge.InRange (j : Judge) : Prop :=
  j.now.nanoseconds + j.clockSkew.total < endOfTime

instance (j : Judge) : Decidable j.InRange := inferInstanceAs (Decidable (_ < _))

theorem Judge.InRange.decides {j : Judge} (h : j.InRange) (o : ReadingContext) :
    (o.judgedBy j).verifier.Decides := by
  apply VerificationContext.decides_of_clock
  rw [Option.isSome_iff_ne_none, Ne, Instant.after?_eq_none]
  exact Int.not_le.mpr h

/-- The judge that knows no certificates. -/
def Judge.unknowing : Judge := ⟨fun _ => none, .ofSeconds 0, [], .ofSeconds 0⟩

theorem Judge.decides_unknowing (o : ReadingContext) : (o.judgedBy .unknowing).verifier.Decides :=
  VerificationContext.decides_of_no_certificate fun _ => rfl

theorem not_givesUp_of_answers {o : ReadingContext} {source : PacketSource}
    {ask : MessageReader o → List Answer} (hv : o.verifier.Decides)
    (hask : ∀ r, ∀ a ∈ ask r, ¬ a.Fails MessageError.IsOverflow) :
    ¬ GivesUp ((ofSource o source).map ask) := by
  rintro (⟨error, he, hoverflow⟩ | ⟨_, he, a, ha, hfails⟩)
  · exact not_isOverflow_of_ofSource hv (Except.map_eq_error.mp he) hoverflow
  · obtain ⟨r, -, rfl⟩ := Except.map_eq_ok.mp he
    exact hask r a ha hfails

section
variable (o : ReadingContext) (j : Judge) (source : PacketSource)

/-- Whoever judges, a session that does not give up is the one before the judge that knows nothing. -/
theorem session_unknowing {requests : List Request} (h : ¬ GivesUp (session (o.judgedBy j) source requests)) :
    (session (o.judgedBy j) source requests).map (List.map Answer.unjudged) =
      (session (o.judgedBy .unknowing) source requests).map (List.map Answer.unjudged) := by
  rw [Answer.unjudged_eq_through]
  exact ((Alike.lockstep (Judge.decides_unknowing (o.judgedBy j))).session
    (Alike.start (o.judgedBy j) .unknowing source) requests h).symm

theorem sessionInTurn_unknowing {requests : List (Judge × Request)}
    (h : ¬ GivesUp (sessionInTurn o j source requests)) :
    (sessionInTurn o j source requests).map (List.map Answer.unjudged) =
      (session (o.judgedBy .unknowing) source (requests.map Prod.snd)).map (List.map Answer.unjudged) := by
  rw [Answer.unjudged_eq_through]
  exact ((Alike.lockstep (Judge.decides_unknowing (o.judgedBy j))).opened (Alike.start (o.judgedBy j) .unknowing source)
    (fun hr hn => hr.answersInTurn (Judge.decides_unknowing (o.judgedBy j)) requests hn) h).symm

end

/-- **Signatures are results, never failures**, unless the sum of a clock and a skew is no time. With other
certificates, another clock, other hashes and another skew, whatever is asked in whatever order, opening
fails in the same way or not at all, and every request gives the same octets, the same failure or the same
tree, but for the signers, the verdicts and the failed checks of the signatures in it, as long as neither
reader gives up. That stays so when certificates, clock, hashes and skew change from one request to the
next. Where all sums of clocks and skews are times, no reader gives up. -/
theorem session_judgedBy (o : ReadingContext) (j j' : Judge) (source : PacketSource) :
    (∀ requests : List Request,
      ¬ GivesUp (session (o.judgedBy j) source requests) →
      ¬ GivesUp (session (o.judgedBy j') source requests) →
      (session (o.judgedBy j) source requests).map (List.map Answer.unjudged) =
        (session (o.judgedBy j') source requests).map (List.map Answer.unjudged)) ∧
    (∀ requests : List (Judge × Request),
      ¬ GivesUp (sessionInTurn o j source requests) →
      ¬ GivesUp (session (o.judgedBy j') source (requests.map Prod.snd)) →
      (sessionInTurn o j source requests).map (List.map Answer.unjudged) =
        (session (o.judgedBy j') source (requests.map Prod.snd)).map (List.map Answer.unjudged)) ∧
    (j.InRange →
      (∀ requests : List Request, ¬ GivesUp (session (o.judgedBy j) source requests)) ∧
      ∀ requests : List (Judge × Request), (∀ x ∈ requests, x.1.InRange) →
        ¬ GivesUp (sessionInTurn o j source requests)) := by
  refine ⟨fun requests h h' => ?_, fun requests h h' => ?_, fun hj => ⟨fun requests => ?_,
    fun requests hr => ?_⟩⟩
  · exact (session_unknowing o j source h).trans (session_unknowing o j' source h').symm
  · exact (sessionInTurn_unknowing o j source h).trans (session_unknowing o j' source h').symm
  · exact not_givesUp_of_answers (hj.decides o) fun r => not_fails_answers (hj.decides o) r requests
  · exact not_givesUp_of_answers (hj.decides o) fun r =>
      not_fails_answersInTurn fun x hx => (hr x hx).decides (o.judgedBy j)

section Examples

open VerificationContext

/-- The signature in front of literal data without an octet. -/
def briefPackets : List Packet :=
  [.signature (briefSignature (.ofCode 12)), .literalData ⟨.binary, [], 0, []⟩]

/-- What a judge makes of the signature. -/
def Judge.verdict (j : Judge) : SignatureVerification :=
  (ReadingContext.keyless.judgedBy j).verifier.verify (briefSignature (.ofCode 12)) none none .preceding

/-- The tree with this verdict. -/
def Judge.tree (j : Judge) : MessageMetadata :=
  ⟨[.leaf (.literal (.ofPacket ⟨.binary, [], 0, []⟩)), .leaf (.signature j.verdict)]⟩

/-- Behind both packets there is only the end of the layer left, with the signature to be judged. -/
theorem settle_briefPackets (j : Judge) : ∃ (r : MessageReader (ReadingContext.keyless.judgedBy j)) (f : Frame),
    (start _ (.packets briefPackets)).settle = r.settle ∧ r.frames = [f] ∧ r.literal = [] ∧
      f.source.next = .ok none ∧ f.automaton.Completes [] ∧ f.kind = .message ∧
      r.correlation = ⟨[], [⟨briefSignature (.ofCode 12), none, [], 0⟩]⟩ ∧
      r.metadata = ⟨[.leaf (.literal (.ofPacket ⟨.binary, [], 0, []⟩))], []⟩ ∧
      r.poisoned = false ∧ r.finished = none :=
  ⟨_, _, (settle_of_step rfl rfl).trans (settle_of_step rfl rfl), rfl, rfl, rfl,
    Automaton.completes_nil_iff.mpr ⟨_, rfl, rfl⟩, rfl, rfl, rfl, rfl, rfl⟩

/-- Reading these packets comes to one check, and gives up there or gives out the tree. -/
theorem session_briefPackets (j : Judge) :
    session (ReadingContext.keyless.judgedBy j) (.packets briefPackets) [.finish] =
      if j.verdict.hasOverflowed then .error .overflow else .ok [.metadata (.ok j.tree)] := by
  obtain ⟨r, f, hsettle, hr, hl, hn, hc, hkind, hcorrelation, hmetadata, hp, hf⟩ := settle_briefPackets j
  have hsettled : (r.correlation.settlePreceding (ReadingContext.keyless.judgedBy j).verifier 0).1 =
      [([], j.verdict)] := by
    rw [hcorrelation]
    rfl
  obtain ⟨h, hstep⟩ := step_of_next_none hr hn
  unfold session
  rw [ofSource_eq, hsettle]
  obtain ⟨-, ⟨r', hleave, hframes, hliteral⟩ | ⟨hleave, x, hx, hv⟩⟩ | ⟨hrefused, -⟩ :=
    leave_verdict (r := r) (f := f) h
  · obtain ⟨-, hv, ⟨hp', hf'⟩, hstate⟩ := leave_eq_ok hleave
    have hdecided : j.verdict.hasOverflowed = false := by
      rw [List.length_nil, hsettled] at hv
      exact hv _ List.mem_cons_self
    have hroots : r'.metadata.roots = j.tree.roots := by
      have := congrArg (fun s => s.metadata.roots) hstate
      simp only [state, List.length_nil, hsettled, hkind, hmetadata, if_true] at this
      exact this
    have hfinish := finish_of_frames (hp'.trans hp) (hf'.trans hf) (hliteral.trans hl) hframes
    rw [hroots] at hfinish
    rw [hleave] at hstep
    rw [settle_of_step hl hstep, settle_of_frames (hliteral.trans hl) hframes]
    simp only [Except.map, answers, answer, hfinish, hdecided, Bool.false_eq_true, if_false]
  · rw [List.length_nil, hsettled, List.mem_singleton] at hx
    rw [hx] at hv
    rw [hleave] at hstep
    rw [settle_of_error hl hstep, if_pos hv]
    rfl
  · exact absurd hc hrefused

/-- Who knows the signer, with some tolerance. -/
def Judge.knowing (skew : Duration) : Judge :=
  ⟨Certificates.find? ⟨[earlyKey]⟩, .ofSeconds 15, [.ofCode 12], skew⟩

theorem Judge.hasOverflowed_verdict_iff (skew : Duration) : (knowing skew).verdict.hasOverflowed = true ↔
    (Instant.ofSeconds 15).after? skew = none := by
  refine hasOverflowed_iff.trans (and_iff_right ?_)
  exact forall_requirementsBeforeClock_trusting _ skew 15 fun a ha => absurd ha (Option.not_mem_none a)

/-- Unless the check gives up, the hash of the signature is what is wrong with it. -/
theorem Judge.failure_verdict {skew : Duration} (h : (knowing skew).verdict.hasOverflowed = false) :
    (knowing skew).verdict.failure = some (.unsupportedHash (.ofCode 12)) := by
  have ha : ∀ a ∈ (none : Option OnePassSignature), a = briefAnnouncement (.ofCode 12) :=
    fun a ha => absurd ha (Option.not_mem_none a)
  obtain ⟨before, r, after, hsplit, hbefore, hfails, hr⟩ := exists_requirements_trusting (.ofCode 12) skew ha
  have hchecks := checks_of_hasOverflowed h
  rw [← hr]
  exact failure_eq_some_iff.mpr ((hsplit ▸ hchecks).eq_error hbefore hfails)

theorem Judge.signatures_tree (j : Judge) : j.tree.signatures = [j.verdict] := by
  simp only [MessageMetadata.signatures, MessageMetadata.layers, tree, LayerNode.leaf, LayerNode.walk,
    List.nil_append]
  rfl

/-- A judge that knows the signer and one that knows nobody: each finds something else wrong with the
signature, and the trees are the same but for that. -/
theorem session_judgedBy_unknowing :
    ∃ j m m', j = Judge.knowing (.ofSeconds 60) ∧
      session (ReadingContext.keyless.judgedBy j) (.packets briefPackets) [.finish] =
        .ok [.metadata (.ok m)] ∧
      session (ReadingContext.keyless.judgedBy .unknowing) (.packets briefPackets) [.finish] =
        .ok [.metadata (.ok m')] ∧
      m.signatures.map (·.failure) = [some (.unsupportedHash (.ofCode 12))] ∧
      m'.signatures.map (·.failure) = [some (.hashRejected (.ofCode 12))] ∧ m.unjudged = m'.unjudged ∧
      (sessionInTurn ReadingContext.keyless j (.packets briefPackets) [(.unknowing, .finish)]).map
        (List.map Answer.unjudged) = .ok [.metadata (.ok m'.unjudged)] := by
  have hj : (Judge.knowing (.ofSeconds 60)).InRange := by decide
  have hj' : Judge.unknowing.InRange := by decide
  have hv : (Judge.knowing (.ofSeconds 60)).verdict.hasOverflowed = false := hj.decides _ _ _ _ _
  have hv' : Judge.unknowing.verdict.hasOverflowed = false := hj'.decides _ _ _ _ _
  have hsession := session_briefPackets (.knowing (.ofSeconds 60))
  have hsession' := session_briefPackets .unknowing
  rw [hv, if_neg Bool.false_ne_true] at hsession
  rw [hv', if_neg Bool.false_ne_true] at hsession'
  obtain ⟨hsame, hinTurn, hrange⟩ := session_judgedBy .keyless (.knowing (.ofSeconds 60)) .unknowing
    (.packets briefPackets)
  obtain ⟨-, -, hrange'⟩ := session_judgedBy .keyless .unknowing .unknowing (.packets briefPackets)
  have htrees := hsame [.finish] ((hrange hj).1 _) ((hrange' hj').1 _)
  have hturn := hinTurn [(.unknowing, .finish)] ((hrange hj).2 _ (List.forall_mem_singleton.mpr hj'))
    ((hrange' hj').1 _)
  rw [hsession, hsession'] at htrees
  refine ⟨_, _, _, rfl, hsession, hsession', ?_, ?_, ?_, ?_⟩
  · rw [Judge.signatures_tree, List.map_singleton, Judge.failure_verdict hv]
  · rw [Judge.signatures_tree]
    rfl
  · simpa [Except.map, Answer.unjudged] using htrees
  · rw [hturn]
    simp only [List.map_cons, List.map_nil, hsession']
    rfl

/-- **A message that is read or not by the skew that is allowed.** With a minute the signature in it is a
result, with the greatest skew there is opening the message gives up. -/
theorem not_session_judgedBy :
    ∃ j j' m, j = Judge.knowing (.ofSeconds 60) ∧ j' = { j with clockSkew := .ofSeconds 0xFFFFFFFFFFFFFFFF } ∧
      session (ReadingContext.keyless.judgedBy j) (.packets briefPackets) [.finish] =
        .ok [.metadata (.ok m)] ∧
      m.signatures.map (·.failure) = [some (.unsupportedHash (.ofCode 12))] ∧
      session (ReadingContext.keyless.judgedBy j') (.packets briefPackets) [.finish] = .error .overflow ∧
      (session (ReadingContext.keyless.judgedBy j) (.packets briefPackets) [.finish]).map
          (List.map Answer.unjudged) ≠
        (session (ReadingContext.keyless.judgedBy j') (.packets briefPackets) [.finish]).map
          (List.map Answer.unjudged) := by
  have hj : (Judge.knowing (.ofSeconds 60)).InRange := by decide
  have hv : (Judge.knowing (.ofSeconds 60)).verdict.hasOverflowed = false := hj.decides _ _ _ _ _
  have hv' : (Judge.knowing (.ofSeconds 0xFFFFFFFFFFFFFFFF)).verdict.hasOverflowed = true :=
    (Judge.hasOverflowed_verdict_iff _).mpr (by decide)
  have hsession := session_briefPackets (.knowing (.ofSeconds 60))
  have hsession' := session_briefPackets (.knowing (.ofSeconds 0xFFFFFFFFFFFFFFFF))
  rw [hv, if_neg Bool.false_ne_true] at hsession
  rw [hv', if_pos rfl] at hsession'
  refine ⟨_, _, _, rfl, rfl, hsession, ?_, hsession', ?_⟩
  · rw [Judge.signatures_tree, List.map_singleton, Judge.failure_verdict hv]
  · rw [hsession]
    intro h
    rw [show ({ Judge.knowing (.ofSeconds 60) with clockSkew := .ofSeconds 0xFFFFFFFFFFFFFFFF } : Judge) =
      .knowing (.ofSeconds 0xFFFFFFFFFFFFFFFF) from rfl, hsession'] at h
    cases h

end Examples

end OpenPGP
