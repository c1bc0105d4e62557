import Mathlib.Data.List.TakeWhile
import OpenPGP.Proofs.Grammar.Completion
/-!
# What is on the stack

Everything the automaton tells is a function of the symbols it accepted. Its
configuration is where the steps over them lead. On the stack lie a signature for
every announcement whose signature has not come and, until the data has come, the
message. Encrypted data is expected and was met in the same control state: the
stack tells the two apart. A rejection is the first symbol that was refused, with
what was accepted before it, and stays.

Results:
* `Configuration.Accounts.step`, `Configuration.accounts_of_run?`: what the stack says of the accepted
  symbols.
* `Automaton.fed_feed`: what an automaton says of the symbols it was fed.
* `Automaton.feed_accounts`: both, for every sequence of symbols.
-/
namespace OpenPGP

namespace InputSymbol

/-- The number of signatures behind the data. -/
def trailing (history : List InputSymbol) : Nat :=
  (history.dropWhile fun s => !s.isData).count .signature

/-- Whether the data has come. -/
def meetsData (history : List InputSymbol) : Bool := history.any isData

theorem meetsData_concat (history : List InputSymbol) (s : InputSymbol) :
    meetsData (history ++ [s]) = (meetsData history || s.isData) := by simp [meetsData]

theorem trailing_eq_zero {history : List InputSymbol} (h : meetsData history = false) :
    trailing history = 0 := by
  have hfront : history.dropWhile (fun s => !s.isData) = [] :=
    List.dropWhile_eq_nil_iff.mpr (by simpa [meetsData] using h)
  rw [trailing, hfront, List.count_nil]

theorem trailing_concat (history : List InputSymbol) (s : InputSymbol) :
    trailing (history ++ [s]) =
      if meetsData history then trailing history + [s].count .signature else 0 := by
  cases h : meetsData history with
  | false =>
    have hfront : ∀ x ∈ history, (!x.isData) = true := by simpa [meetsData] using h
    rw [trailing, List.dropWhile_append_of_pos hfront]
    cases s <;> rfl
  | true =>
    have hbehind : (history.dropWhile fun s => !s.isData).isEmpty = false := by
      obtain ⟨d, hd, hdata⟩ := List.any_eq_true.mp h
      rw [List.isEmpty_eq_false_iff, ne_eq, List.dropWhile_eq_nil_iff]
      exact fun hnone => absurd (hnone d hd) (by simp [hdata])
    rw [trailing, List.dropWhile_append, hbehind, if_neg (by decide), List.count_append, trailing]
    rfl

end InputSymbol

open InputSymbol (trailing trailing_concat meetsData meetsData_concat)

namespace Configuration

variable {c c' : Configuration} {history : List InputSymbol}

/-- How a configuration accounts for the symbols that led to it. -/
structure Accounts (history : List InputSymbol) (c : Configuration) : Prop where
  /-- Over the bottom lie the signatures that are owed, over them at most the message. -/
  stack : ∃ k, k + trailing history = history.count .onePassSignature ∧
    (c.stack = List.replicate k .sig ++ [.terminus] ∨
      c.stack = .msg :: (List.replicate k .sig ++ [.terminus]))
  /-- The message is owed until its data has come. -/
  data : .msg ∈ c.stack ↔ meetsData history = false
  /-- So it is at the beginning, and behind key packets as long as encrypted data is to come. -/
  owing : .msg ∈ c.stack ↔
    c.state = .openPgpMessage ∨ c.state = .encryptedData ∧ .encryptedData ∉ history
  valid : c.state = .valid → c.stack = [.terminus]

theorem accounts_initial : initial.Accounts [] where
  stack := ⟨0, rfl, .inr rfl⟩
  data := by decide
  owing := by decide
  valid := nofun

theorem accounts_front {s : InputSymbol} {st : ControlState} {k : Nat} (h : meetsData history = false)
    (hs : s.isData = false) (hst : st = .openPgpMessage ∨ st = .encryptedData)
    (hk : k = (history ++ [s]).count .onePassSignature) :
    Accounts (history ++ [s]) ⟨st, .msg :: (List.replicate k .sig ++ [.terminus])⟩ where
  stack := ⟨k, by simp [trailing_concat, h, hk], .inr rfl⟩
  data := by simp [meetsData_concat, h, hs]
  owing := by
    have hmem : .encryptedData ∉ history ++ [s] := fun hm => by
      have hnone : meetsData (history ++ [s]) = false := by simp [meetsData_concat, h, hs]
      exact List.any_eq_false.mp hnone _ hm rfl
    rcases hst with rfl | rfl <;> simp [hmem]
  valid := by rcases hst with rfl | rfl <;> exact nofun

theorem accounts_reach {s : InputSymbol} {st : ControlState} {k : Nat} (h : meetsData history = false)
    (hs : s.isData = true) (hst : st.isElement = true) (hd : st = .encryptedData → s = .encryptedData)
    (hk : k = history.count .onePassSignature) :
    Accounts (history ++ [s]) ⟨st, List.replicate k .sig ++ [.terminus]⟩ where
  stack := by
    have hne : s ≠ .onePassSignature := by rintro rfl; cases hs
    exact ⟨k, by simp [trailing_concat, h, hk, hne], .inl rfl⟩
  data := by simp [meetsData_concat, hs]
  owing := by
    have hne : st ≠ .openPgpMessage := by rintro rfl; cases hst
    simpa [hne] using fun he _ => (hd he).symm
  valid := by rintro rfl; cases hst

/-- A step accounts for its symbol. -/
theorem Accounts.step {s : InputSymbol} (h : c.Accounts history) (hn : c.next? s = some c') :
    c'.Accounts (history ++ [s]) := by
  obtain ⟨state, stack⟩ := c
  obtain ⟨k, hk, rfl | rfl⟩ := h.stack
  · -- the data has come: what is owed is taken off, and at the bottom the end comes
    have hmet : meetsData history = true := by simpa using h.data
    cases k with
    | zero =>
      obtain ⟨-, rfl, rfl⟩ := Sketch.next?_terminus hn
      exact ⟨⟨0, by simpa [trailing_concat, hmet] using hk, .inl rfl⟩, by simp [meetsData_concat, hmet],
        by simp, fun _ => rfl⟩
    | succ k =>
      obtain ⟨-, rfl, rfl⟩ := Sketch.next?_sig hn
      have hcount : k + (trailing history + 1) = history.count .onePassSignature := by omega
      exact ⟨⟨k, by simpa [trailing_concat, hmet] using hcount, .inl rfl⟩,
        by simp [meetsData_concat, hmet], by simp, nofun⟩
  · -- the data has not come: it does, or something that stands in front of it
    have hnot : meetsData history = false := by simpa using h.data
    rw [InputSymbol.trailing_eq_zero hnot, Nat.add_zero] at hk
    rcases Sketch.next?_msg hn with ⟨-, ⟨rfl, rfl⟩ | ⟨rfl, rfl⟩⟩ |
        ⟨-, ⟨rfl, rfl⟩ | ⟨rfl, rfl⟩ | ⟨rfl, rfl⟩ | ⟨rfl, rfl⟩⟩
    · exact accounts_front hnot rfl (.inr rfl) (by simp [hk])
    · exact accounts_reach hnot rfl rfl (fun _ => rfl) hk
    · exact accounts_front hnot rfl (.inl rfl) (by simp [hk])
    · exact accounts_front (k := k + 1) hnot rfl (.inl rfl) (by simp [hk])
    · exact accounts_reach hnot rfl rfl nofun hk
    · exact accounts_reach hnot rfl rfl nofun hk

/-- Every accepted sequence is accounted for. -/
theorem accounts_of_run? (h : initial.run? history = some c) : c.Accounts history := by
  induction history using List.reverseRecOn generalizing c with
  | nil => cases h; exact accounts_initial
  | append_singleton history s ih =>
    obtain ⟨b, hb, hc⟩ := run?_concat_eq h
    exact (ih hb).step hc

theorem state_of_next?_end (h : c.next? .endOfSequence = some c') : c'.state = .valid := by
  obtain ⟨state, stack⟩ := c
  cases stack with
  | nil => cases h
  | cons top below =>
    cases top with
    | terminus => cases state <;> cases h <;> rfl
    | msg => cases state <;> cases h
    | sig => cases state <;> cases h

/-- The accepting state is the accepting configuration. -/
theorem Accounts.isValid (h : c.Accounts history) (hv : c.state = .valid) : c.isValid = true := by
  simp [Configuration.isValid, hv, h.valid hv]

end Configuration

namespace Automaton

variable {a a' : Automaton} {inputs : List InputSymbol}

/-- The symbols that an automaton accepts of those it is fed. -/
def accepted (a : Automaton) : List InputSymbol → List InputSymbol
  | [] => []
  | s :: inputs =>
    match a.next s with
    | (.ok (), a) => s :: a.accepted inputs
    | (.error _, a) => a.accepted inputs

@[simp] theorem feed_concat (a : Automaton) (inputs : List InputSymbol) (s : InputSymbol) :
    a.feed (inputs ++ [s]) = ((a.feed inputs).next s).2 := by simp [feed]

/-- A symbol that is refused leaves everything as it is, but for the rejection of the first. -/
theorem next_eq_error {s : InputSymbol} {r : Rejection} (h : a.next s = (.error r, a')) :
    a' = { a with rejection := some r } ∧
      (a.rejection = some r ∨
        a.rejection = none ∧ a.configuration.next? s = none ∧ r = a.reject s) := by
  unfold next at h
  split at h
  · next hr =>
    cases h
    exact ⟨by rw [← hr], .inl hr⟩
  · next hr =>
    split at h
    · cases h
    · next hc =>
      cases h
      exact ⟨rfl, .inr ⟨hr, hc, rfl⟩⟩

theorem history_feed (a : Automaton) (inputs : List InputSymbol) :
    (a.feed inputs).history = a.history ++ a.accepted inputs := by
  induction inputs generalizing a with
  | nil => simp [feed, accepted]
  | cons s inputs ih =>
    have hfeed : a.feed (s :: inputs) = (a.next s).2.feed inputs := rfl
    rw [hfeed, ih, accepted]
    split
    · next b hb =>
      obtain ⟨-, c, -, rfl⟩ := next_eq_ok_iff.mp hb
      simp [hb]
    · next r b hb =>
      obtain ⟨rfl, -⟩ := next_eq_error hb
      simp [hb]

/-- What an automaton says of the symbols it was fed. -/
structure Fed (inputs : List InputSymbol) (a : Automaton) : Prop where
  run : Configuration.initial.run? a.history = some a.configuration
  whole : a.rejection = none → a.history = inputs
  /-- A rejection is that of the first symbol that was refused. -/
  refused : ∀ r, a.rejection = some r → r.history = a.history ∧
    ⟨r.state, r.stack⟩ = a.configuration ∧ a.configuration.next? r.input = none ∧
      r.history ++ [r.input] <+: inputs

theorem fed_initial : initial.Fed [] := ⟨rfl, fun _ => rfl, nofun⟩

theorem Fed.next (h : a.Fed inputs) (s : InputSymbol) : (a.next s).2.Fed (inputs ++ [s]) := by
  cases e : a.next s with
  | mk result b =>
    cases result with
    | ok u =>
      obtain ⟨hr, c, hc, rfl⟩ := next_eq_ok_iff.mp e
      have hrun : Configuration.initial.run? (a.history ++ [s]) = some c := by
        rw [Configuration.run?_append, h.run]
        simpa [Configuration.run?] using hc
      exact ⟨hrun, fun _ => congrArg (· ++ [s]) (h.whole hr), fun r hr' => by cases hr'⟩
    | error r =>
      obtain ⟨rfl, hr | ⟨hr, hc, rfl⟩⟩ := next_eq_error e
      · obtain ⟨hhistory, hconfiguration, hnext, hfirst⟩ := h.refused r hr
        refine ⟨h.run, fun hnone => (Option.some_ne_none _ hnone).elim, fun r' hr' => ?_⟩
        obtain rfl : r = r' := Option.some.inj hr'
        exact ⟨hhistory, hconfiguration, hnext, hfirst.trans (List.prefix_append inputs [s])⟩
      · refine ⟨h.run, fun hnone => (Option.some_ne_none _ hnone).elim, fun r' hr' => ?_⟩
        obtain rfl : a.reject s = r' := Option.some.inj hr'
        exact ⟨rfl, rfl, hc, by rw [← h.whole hr]; exact List.prefix_rfl⟩

theorem fed_feed (inputs : List InputSymbol) : (initial.feed inputs).Fed inputs := by
  induction inputs using List.reverseRecOn with
  | nil => exact fed_initial
  | append_singleton inputs s ih =>
    rw [feed_concat]
    exact ih.next s

theorem Fed.assertValid_of_end (h : a.Fed inputs) (e : a.next .endOfSequence = (.ok (), a')) :
    a'.assertValid = .ok () := by
  have hfed := h.next .endOfSequence
  rw [e] at hfed
  obtain ⟨-, c, hc, rfl⟩ := next_eq_ok_iff.mp e
  have hvalid := (Configuration.accounts_of_run? hfed.run).isValid (Configuration.state_of_next?_end hc)
  simp only [assertValid, hvalid, if_true]

theorem rejected_of_next {s : InputSymbol} {r : Rejection} (e : a.next s = (.error r, a'))
    (later : List InputSymbol) :
    (a'.feed later).assertValid = .error r ∧ ∀ x, ((a'.feed later).next x).1 = .error r := by
  obtain ⟨rfl, -⟩ := next_eq_error e
  rw [feed_of_rejected rfl]
  exact ⟨rfl, fun _ => rfl⟩

/-- **What an automaton says is a function of what it accepted.** After any symbols

* the history is those that were accepted, and the configuration is where the steps over it lead;
* on the stack lie as many signatures as there are announcements less signatures behind the data, over
  them the message exactly as long as it is owed, and in the accepting state neither;
* where the end is accepted, the automaton is valid;
* where a symbol is refused, the rejection is the first one, it answers everything that follows, and its
  configuration is where its own history leads and does refuse its symbol. -/
theorem feed_accounts (inputs : List InputSymbol) :
    (initial.feed inputs).history = initial.accepted inputs ∧
    Configuration.initial.run? (initial.feed inputs).history = some (initial.feed inputs).configuration ∧
    (initial.feed inputs).configuration.Accounts (initial.feed inputs).history ∧
    (∀ a, (initial.feed inputs).next .endOfSequence = (.ok (), a) → a.assertValid = .ok ()) ∧
    ∀ x r a, (initial.feed inputs).next x = (.error r, a) →
      (∀ later, (a.feed later).assertValid = .error r ∧ ∀ y, ((a.feed later).next y).1 = .error r) ∧
      Configuration.initial.run? r.history = some ⟨r.state, r.stack⟩ ∧
      Configuration.next? ⟨r.state, r.stack⟩ r.input = none ∧
      r.history ++ [r.input] <+: inputs ++ [x] := by
  have hfed := fed_feed inputs
  refine ⟨history_feed initial inputs, hfed.run, Configuration.accounts_of_run? hfed.run,
    fun a => hfed.assertValid_of_end, fun x r a e => ⟨rejected_of_next e, ?_⟩⟩
  have hafter := hfed.next x
  rw [e] at hafter
  obtain ⟨rfl, -⟩ := next_eq_error e
  obtain ⟨hhistory, hconfiguration, hnext, hfirst⟩ := hafter.refused r rfl
  have hrun := hafter.run
  rw [← hhistory, ← hconfiguration] at hrun
  exact ⟨hrun, hconfiguration ▸ hnext, hfirst⟩

/-- Behind an announcement and literal data the end is refused, and so is the signature that was
announced, once the end was; without the end it is accepted, and then the end is. -/
theorem feed_accounts_announced :
    ∃ r a, (initial.feed [.onePassSignature, .literalData]).next .endOfSequence = (.error r, a) ∧
      r = ⟨[.onePassSignature, .literalData], .literalMessage, [.sig, .terminus], .endOfSequence⟩ ∧
      (a.next .signature).1 = .error r ∧ a.assertValid = .error r ∧
      ∃ b, (initial.feed [.onePassSignature, .literalData, .signature]).next .endOfSequence =
        (.ok (), b) ∧ b.assertValid = .ok () := by
  obtain ⟨-, -, -, -, hrefused⟩ := feed_accounts [.onePassSignature, .literalData]
  obtain ⟨hlater, -⟩ := hrefused .endOfSequence _ _ rfl
  obtain ⟨-, -, -, hend, -⟩ := feed_accounts [.onePassSignature, .literalData, .signature]
  exact ⟨_, _, rfl, rfl, (hlater []).2 .signature, (hlater []).1, _, rfl, hend _ rfl⟩

end Automaton

end OpenPGP
