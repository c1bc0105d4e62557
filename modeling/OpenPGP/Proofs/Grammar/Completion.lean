import OpenPGP.Proofs.Grammar.Language
/-!
# Rejection at the first symbol that cannot be right

What the automaton accepted can always be completed to a message: the stack says what
is still owed, and the symbols that settle it are read off the stack (`completion`). So
a symbol is refused only where no message goes on with it, and it is refused at once,
not at a later symbol or at the end.

Results:
* `Configuration.Live.step`, `Configuration.live_of_run?`: what the stack of an accepted beginning is.
* `Configuration.Live.run?_completion`: what the stack owes leads to the end.
* `Automaton.next_ok_iff_continues`: a symbol is accepted exactly where a message goes on with it.
-/
namespace OpenPGP

/-- The symbol that takes a symbol off the stack; for a message that is owed, the shortest one. -/
def StackSymbol.closing : StackSymbol → InputSymbol
  | terminus => .endOfSequence
  | msg => .encryptedData
  | sig => .signature

namespace Configuration

variable {c c' : Configuration} {inputs : List InputSymbol}

/-- What a configuration owes, down to the end of the sequence. -/
def completion (c : Configuration) : List InputSymbol :=
  if c.state = .valid then [] else c.stack.map StackSymbol.closing

/-- The configurations of beginnings of messages: a message is owed with `n` signatures behind it, or
only the signatures are, or the end was met. -/
inductive Live : Configuration → Prop
  | owing {st : ControlState} (n : Nat) (h : st = .openPgpMessage ∨ st = .encryptedData) :
      Live ⟨st, .msg :: (List.replicate n .sig ++ [.terminus])⟩
  | element {st : ControlState} (n : Nat) (h : st.isElement = true) :
      Live ⟨st, List.replicate n .sig ++ [.terminus]⟩
  | ended : Live ⟨.valid, [.terminus]⟩

/-! ## What a step keeps -/

theorem live_initial : initial.Live := .owing 0 (.inl rfl)

/-- A step keeps this, and only the end of the sequence leads to the accepting state. -/
theorem Live.step {s : InputSymbol} (h : c.Live) (hn : c.next? s = some c') :
    c'.Live ∧ (c'.state = .valid → s = .endOfSequence) := by
  cases h with
  | owing n hst =>
    rcases Sketch.next?_msg hn with ⟨-, ⟨-, rfl⟩ | ⟨-, rfl⟩⟩ | ⟨-, ⟨-, rfl⟩ | ⟨-, rfl⟩ | ⟨-, rfl⟩ | ⟨-, rfl⟩⟩
    · exact ⟨.owing n (.inr rfl), nofun⟩
    · exact ⟨.element n rfl, nofun⟩
    · exact ⟨.owing n (.inl rfl), nofun⟩
    · exact ⟨.owing (n + 1) (.inl rfl), nofun⟩
    · exact ⟨.element n rfl, nofun⟩
    · exact ⟨.element n rfl, nofun⟩
  | element n hst =>
    cases n with
    | zero =>
      obtain ⟨-, rfl, rfl⟩ := Sketch.next?_terminus hn
      exact ⟨.ended, fun _ => rfl⟩
    | succ n =>
      obtain ⟨-, -, rfl⟩ := Sketch.next?_sig hn
      exact ⟨.element n rfl, nofun⟩
  | ended => cases (Sketch.next?_terminus hn).1

theorem Live.run (h : c.Live) (hr : c.run? inputs = some c') : c'.Live := by
  induction inputs generalizing c with
  | nil => cases hr; exact h
  | cons s inputs ih =>
    obtain ⟨b, hb, hr⟩ := Option.bind_eq_some_iff.mp hr
    exact ih (h.step hb).1 hr

theorem live_of_run? (h : initial.run? inputs = some c) : c.Live := live_initial.run h

/-! ## Completions -/

theorem run?_closing (n : Nat) {st : ControlState} (hst : st.isElement = true) :
    run? ⟨st, List.replicate n .sig ++ [.terminus]⟩
      ((List.replicate n StackSymbol.sig ++ [StackSymbol.terminus]).map StackSymbol.closing) =
        some ⟨.valid, [.terminus]⟩ := by
  induction n generalizing st with
  | zero => cases st <;> first | rfl | cases hst
  | succ n ih =>
    have hstep : next? ⟨st, .sig :: (List.replicate n .sig ++ [.terminus])⟩ .signature =
        some ⟨.signedMessage, List.replicate n .sig ++ [.terminus]⟩ := by
      cases st <;> first | rfl | cases hst
    rw [List.replicate_succ, List.cons_append, List.map_cons, StackSymbol.closing, run?, hstep,
      Option.bind_some, ih rfl]

/-- **No dead end**: what the stack owes leads to the accepting configuration. -/
theorem Live.run?_completion (h : c.Live) : c.run? c.completion = some ⟨.valid, [.terminus]⟩ := by
  cases h with
  | @owing st n hst =>
    have hne : st ≠ .valid := by rcases hst with rfl | rfl <;> decide
    have hdata : next? ⟨st, .msg :: (List.replicate n .sig ++ [.terminus])⟩ .encryptedData =
        some ⟨.encryptedData, List.replicate n .sig ++ [.terminus]⟩ := by
      rcases hst with rfl | rfl <;> rfl
    rw [completion, if_neg hne, List.map_cons, StackSymbol.closing, run?, hdata, Option.bind_some,
      run?_closing n (show ControlState.encryptedData.isElement = true from rfl)]
  | @element st n hst =>
    have hne : st ≠ .valid := by rintro rfl; cases hst
    rw [completion, if_neg hne, run?_closing n hst]
  | ended => rfl

/-- Accepted symbols that end in the accepting state are a message and its end. -/
theorem message?_of_run? (h : initial.run? inputs = some c) (hv : c.state = .valid) :
    ∃ w, InputSymbol.message? w = some [] ∧ inputs = w ++ [.endOfSequence] := by
  rcases List.eq_nil_or_concat inputs with rfl | ⟨w, s, rfl⟩
  · cases h
    cases hv
  · rw [List.concat_eq_append] at h ⊢
    obtain ⟨b, hb, hend⟩ := run?_concat_eq h
    obtain rfl := ((live_of_run? hb).step hend).2 hv
    obtain ⟨-, -, d, -, hm⟩ := message_of_run? (ne_end_of_run? h) (by simpa using hb) hend
    rw [visible_some] at hm
    exact ⟨w, (InputSymbol.message?_eq_some_nil_iff w).mpr ⟨_, hm⟩, rfl⟩

/-- A message and its end are accepted, and so is every beginning of them. -/
theorem run?_of_message? {w : List InputSymbol} (h : InputSymbol.message? w = some [])
    (hp : inputs <+: w ++ [.endOfSequence]) : ∃ c, initial.run? inputs = some c := by
  obtain ⟨o, hm⟩ := (InputSymbol.message?_eq_some_nil_iff w).mp h
  obtain ⟨a, ha, -⟩ := (Automaton.initial_completes_iff w).mpr ⟨o, hm⟩
  obtain ⟨rest, hrest⟩ := hp
  have hrun := Automaton.run?_of_accept? ha
  rw [← hrest, run?_append] at hrun
  obtain ⟨c, hc, -⟩ := Option.bind_eq_some_iff.mp hrun
  exact ⟨c, hc⟩

/-- **Accepted beginnings are the beginnings of messages**, their ends included. -/
theorem run?_isSome_iff (inputs : List InputSymbol) : (∃ c, initial.run? inputs = some c) ↔
    ∃ w, InputSymbol.message? w = some [] ∧ inputs <+: w ++ [.endOfSequence] := by
  constructor
  · rintro ⟨c, hc⟩
    have hrun : initial.run? (inputs ++ c.completion) = some ⟨.valid, [.terminus]⟩ := by
      rw [run?_append, hc, Option.bind_some, (live_of_run? hc).run?_completion]
    obtain ⟨w, hw, heq⟩ := message?_of_run? hrun rfl
    exact ⟨w, hw, c.completion, heq⟩
  · rintro ⟨w, hw, hp⟩
    exact run?_of_message? hw hp

end Configuration

/-! ## Feeding -/

namespace Automaton

variable {a : Automaton} {inputs : List InputSymbol}

theorem feed_of_rejected {r : Rejection} (h : a.rejection = some r) : a.feed inputs = a := by
  induction inputs with
  | nil => rfl
  | cons s inputs ih =>
    have hnext : (a.next s).2 = a := by rw [next, h]
    rw [feed, List.foldl_cons, hnext]
    exact ih

theorem accept?_of_feed (h : (a.feed inputs).rejection = none) : a.accept? inputs = some (a.feed inputs) := by
  induction inputs generalizing a with
  | nil => rfl
  | cons s inputs ih =>
    have hfeed : a.feed (s :: inputs) = (a.next s).2.feed inputs := rfl
    rw [hfeed] at h ⊢
    rw [accept?]
    split
    · next b hb => rw [hb] at h ⊢; exact ih h
    · next r b hb =>
      have hr : b.rejection = some r := by
        unfold next at hb
        split at hb
        · next hr => cases hb; exact hr
        · split at hb <;> cases hb; rfl
      rw [hb, feed_of_rejected hr, hr] at h
      cases h

theorem next_fst_eq_ok_iff (hr : a.rejection = none) (s : InputSymbol) :
    (a.next s).1 = .ok () ↔ ∃ c, a.configuration.next? s = some c := by
  constructor
  · intro h
    obtain ⟨-, c, hc, -⟩ := next_eq_ok_iff.mp (Prod.ext h rfl)
    exact ⟨c, hc⟩
  · rintro ⟨c, hc⟩
    rw [next_eq_ok_iff.mpr ⟨hr, c, hc, rfl⟩]

/-- **The automaton refuses a symbol at once, and only where it must.** Behind symbols that were all
accepted, a symbol is accepted exactly if some message of the grammar, with its end, goes on with it.
Whatever was fed, as long as nothing was refused there are symbols that lead to the accepting
configuration: those that the stack owes. -/
theorem next_ok_iff_continues :
    (∀ h a, initial.accept? h = some a → ∀ x, (a.next x).1 = .ok () ↔
      ∃ w, InputSymbol.message? w = some [] ∧ h ++ [x] <+: w ++ [.endOfSequence]) ∧
    ∀ inputs, (initial.feed inputs).rejection = none →
      ∃ a, (initial.feed inputs).accept? (initial.feed inputs).configuration.completion = some a ∧
        a.isValid = true := by
  constructor
  · intro h a ha x
    obtain ⟨c, hc, rfl⟩ := (accept?_eq_some_iff rfl).mp ha
    rw [next_fst_eq_ok_iff rfl, ← Configuration.run?_isSome_iff]
    have hrun : Configuration.initial.run? (h ++ [x]) = c.next? x := by
      rw [Configuration.run?_append, show Configuration.initial.run? h = some c from hc]
      simp [Configuration.run?]
    rw [hrun]
  · intro inputs hr
    have hlive := Configuration.live_of_run? (run?_of_accept? (accept?_of_feed hr))
    exact ⟨_, (accept?_eq_some_iff hr).mpr ⟨_, hlive.run?_completion, rfl⟩, rfl⟩

/-- Behind an announcement and a signature the end is refused, and data is not. Encrypted data, the
announced signature and the end are what is owed. -/
theorem next_ok_iff_continues_announced :
    ∃ a, a = initial.feed [.onePassSignature, .signature] ∧
      initial.accept? [.onePassSignature, .signature] = some a ∧ a.rejection = none ∧
      (∃ w, InputSymbol.message? w = some [] ∧
        [.onePassSignature, .signature] ++ [.literalData] <+: w ++ [.endOfSequence]) ∧
      (¬ ∃ w, InputSymbol.message? w = some [] ∧
        [.onePassSignature, .signature] ++ [.endOfSequence] <+: w ++ [.endOfSequence]) ∧
      a.configuration.completion = [.encryptedData, .signature, .endOfSequence] ∧
      ∃ b, a.accept? a.configuration.completion = some b ∧ b.isValid = true := by
  obtain ⟨hnext, hcompletes⟩ := next_ok_iff_continues
  have haccept : initial.accept? [.onePassSignature, .signature] =
      some (initial.feed [.onePassSignature, .signature]) := by decide
  refine ⟨_, rfl, haccept, by decide, (hnext _ _ haccept .literalData).mp (by decide), fun h => ?_,
    by decide, hcompletes _ (by decide)⟩
  exact absurd ((hnext _ _ haccept .endOfSequence).mpr h) (by decide)

end Automaton

end OpenPGP
