import Mathlib.Data.List.Induction
import OpenPGP.Grammar.Recognizer
import OpenPGP.Proofs.Grammar.Derivation
/-!
# The language of the automaton

Runs of the automaton over whole sequences, with items that stand for no symbol
among them, and the recursive reading, set against the derivations of the
grammar.

Results:
* `fits_of_run?`, `message_of_run?`: what was accepted has a sketch and, at its end, a derivation.
* `Message.run`: a message takes the automaton over what it owes.
* `InputSymbol.message?_eq_some_nil_iff`: the recursive reading finds exactly the messages.
* `Automaton.initial_completes_iff`: the automaton completes exactly the messages.
* `automaton_accepts_iff_message?`: automaton, recursive reading and grammar agree.
-/
namespace OpenPGP

/-! ## The automaton -/

namespace Configuration

/-- The configuration behind symbols that are all accepted. -/
def run? (c : Configuration) : List InputSymbol → Option Configuration
  | [] => some c
  | input :: inputs => (c.next? input).bind fun c => c.run? inputs

theorem run?_append (c : Configuration) (u v : List InputSymbol) :
    c.run? (u ++ v) = (c.run? u).bind fun d => d.run? v := by
  induction u generalizing c with
  | nil => rfl
  | cons s u ih => simp only [List.cons_append, run?, Option.bind_assoc, ih]

theorem run?_concat_eq {c d : Configuration} {u : List InputSymbol} {s : InputSymbol}
    (h : c.run? (u ++ [s]) = some d) : ∃ b, c.run? u = some b ∧ b.next? s = some d := by
  rw [run?_append] at h
  obtain ⟨b, hb, hs⟩ := Option.bind_eq_some_iff.mp h
  exact ⟨b, hb, by simpa [run?] using hs⟩

end Configuration

namespace Automaton

/-- Feeds symbols one after the other as long as each is accepted. -/
def accept? (a : Automaton) : List InputSymbol → Option Automaton
  | [] => some a
  | input :: inputs =>
    match a.next input with
    | (.ok (), a) => a.accept? inputs
    | (.error _, _) => none

theorem next_eq_ok_iff {a a' : Automaton} {s : InputSymbol} : a.next s = (.ok (), a') ↔
    a.rejection = none ∧ ∃ c, a.configuration.next? s = some c ∧ a' = ⟨c, a.history ++ [s], none⟩ := by
  unfold next
  split
  · next r hr => simp [hr]
  · next hr =>
    split
    · next c hc => simp [hr, hc, eq_comm]
    · next hc => simp [hc]

theorem accept?_eq_some_iff {a a' : Automaton} {inputs : List InputSymbol} (hr : a.rejection = none) :
    a.accept? inputs = some a' ↔
      ∃ c, a.configuration.run? inputs = some c ∧ a' = ⟨c, a.history ++ inputs, none⟩ := by
  induction inputs generalizing a with
  | nil =>
    obtain ⟨c, h, r⟩ := a
    dsimp only at hr
    subst hr
    simp [accept?, Configuration.run?, eq_comm]
  | cons s inputs ih =>
    simp only [accept?, Configuration.run?]
    cases hc : a.configuration.next? s with
    | none =>
      have : ∀ b, a.next s ≠ (.ok (), b) := fun b hb => by
        obtain ⟨-, c, hc', -⟩ := next_eq_ok_iff.mp hb
        rw [hc] at hc'
        cases hc'
      split
      · next b hb => exact absurd hb (this b)
      · simp
    | some c =>
      rw [next_eq_ok_iff.mpr ⟨hr, c, hc, rfl⟩]
      simp [ih]

theorem accept?_append (a : Automaton) (u v : List InputSymbol) :
    a.accept? (u ++ v) = (a.accept? u).bind fun b => b.accept? v := by
  induction u generalizing a with
  | nil => rfl
  | cons s u ih =>
    simp only [List.cons_append, accept?]
    split
    · exact ih _
    · rfl

theorem accept?_concat {a b b' : Automaton} {u : List InputSymbol} {s : InputSymbol}
    (h : a.accept? u = some b) (hn : b.next s = (.ok (), b')) : a.accept? (u ++ [s]) = some b' := by
  rw [accept?_append, h]
  simp [accept?, hn]

theorem run?_of_accept? {a : Automaton} {inputs : List InputSymbol}
    (h : initial.accept? inputs = some a) :
    Configuration.initial.run? inputs = some a.configuration := by
  obtain ⟨c, hc, rfl⟩ := (accept?_eq_some_iff rfl).mp h
  exact hc

end Automaton

section
variable {α : Type} {symbol? : α → Option InputSymbol}

/-- The items that stand for a symbol; the others may be anywhere. -/
def visible (symbol? : α → Option InputSymbol) (xs : List α) : List α :=
  xs.filter fun x => (symbol? x).isSome

theorem visible_some (symbols : List InputSymbol) : visible some symbols = symbols :=
  List.filter_eq_self.mpr fun _ _ => rfl

theorem filterMap_visible (xs : List α) :
    (visible symbol? xs).filterMap symbol? = xs.filterMap symbol? := by
  rw [visible, List.filterMap_filter]
  congr
  funext x
  cases symbol? x <;> rfl

theorem visible_append_none {xs : List α} {x : α} (hx : symbol? x = none) :
    visible symbol? (xs ++ [x]) = visible symbol? xs := by simp [visible, hx]

theorem visible_append_some {xs : List α} {x : α} {s : InputSymbol} (hx : symbol? x = some s) :
    visible symbol? (xs ++ [x]) = visible symbol? xs ++ [x] := by simp [visible, hx]

/-- What was accepted fits its sketch and can be derived by it. The end of a sequence is no item. -/
theorem fits_of_run? {xs : List α} (hs : ∀ x ∈ xs, symbol? x ≠ some .endOfSequence)
    {c : Configuration} (h : Configuration.initial.run? (xs.filterMap symbol?) = some c) :
    (sketch symbol? xs).Fits c ∧ (sketch symbol? xs).Parses symbol? (visible symbol? xs) := by
  induction xs using List.reverseRecOn generalizing c with
  | nil =>
    cases h
    exact ⟨Sketch.fits_empty, Sketch.parses_empty⟩
  | append_singleton xs x ih =>
    have hs' : ∀ y ∈ xs, symbol? y ≠ some .endOfSequence := fun y hy => hs y (by simp [hy])
    rw [sketch_append]
    cases hx : symbol? x with
    | none =>
      rw [visible_append_none hx, Sketch.add_none hx]
      exact ih hs' (by simpa [hx] using h)
    | some s =>
      have hne : s ≠ .endOfSequence := fun e => hs x (by simp) (e ▸ hx)
      rw [List.filterMap_append, show [x].filterMap symbol? = [s] by simp [hx]] at h
      obtain ⟨b, hb, hc⟩ := Configuration.run?_concat_eq h
      obtain ⟨hf, hp⟩ := ih hs' hb
      rw [visible_append_some hx]
      exact ⟨Sketch.fits_add hf hx hne hc, Sketch.parses_add hf hp hx hne hc⟩

/-- Where the end is accepted, what came before is a message. -/
theorem message_of_run? {xs : List α} (hs : ∀ x ∈ xs, symbol? x ≠ some .endOfSequence)
    {c c' : Configuration} (h : Configuration.initial.run? (xs.filterMap symbol?) = some c)
    (hn : c.next? .endOfSequence = some c') :
    c' = ⟨.valid, [.terminus]⟩ ∧ (sketch symbol? xs).owed = [] ∧
      ∃ d, (sketch symbol? xs).data = some d ∧
        Message symbol? (visible symbol? xs) ((sketch symbol? xs).outline d) := by
  obtain ⟨hf, hp⟩ := fits_of_run? hs h
  exact Sketch.message_of_end hf hp hn

theorem run?_cons {x : α} {s : InputSymbol} {ys : List α} {c : Configuration} (c' : Configuration)
    (hx : symbol? x = some s) (hn : c.next? s = some c') :
    c.run? ((x :: ys).filterMap symbol?) = c'.run? (ys.filterMap symbol?) := by
  rw [List.filterMap_cons_some hx, Configuration.run?, hn]
  rfl

theorem run?_keys {ks : List α} (hk : ∀ k ∈ ks, symbol? k = some .encryptedSessionKey)
    {st : ControlState} (below : List StackSymbol)
    (hst : st = .openPgpMessage ∨ st = .encryptedData) :
    ∃ st', (st' = .openPgpMessage ∨ st' = .encryptedData) ∧
      Configuration.run? ⟨st, .msg :: below⟩ (ks.filterMap symbol?) = some ⟨st', .msg :: below⟩ := by
  induction ks generalizing st with
  | nil => exact ⟨st, hst, rfl⟩
  | cons k ks ih =>
    obtain ⟨st', h1, h2⟩ := ih (fun x hx => hk x (by simp [hx])) (.inr rfl)
    refine ⟨st', h1, ?_⟩
    rw [run?_cons ⟨.encryptedData, .msg :: below⟩ (hk k (by simp))
      (by rcases hst with rfl | rfl <;> rfl), h2]

/-- A message takes the automaton that owes one to what lies below it on the stack. -/
theorem Message.run {xs : List α} {o : Outline α} (h : Message symbol? xs o)
    (below : List StackSymbol) : ∃ st, st.isElement = true ∧
      Configuration.run? ⟨.openPgpMessage, .msg :: below⟩ (xs.filterMap symbol?) =
        some ⟨st, below⟩ := by
  induction h generalizing below with
  | @encrypted ks d hk hd =>
    obtain ⟨st, h1, h2⟩ := run?_keys hk below (.inl rfl)
    refine ⟨.encryptedData, rfl, ?_⟩
    rw [List.filterMap_append, Configuration.run?_append, h2, Option.bind_some,
      run?_cons ⟨.encryptedData, below⟩ hd (by rcases h1 with rfl | rfl <;> rfl)]
    rfl
  | compressed hd => exact ⟨.compressedMessage, rfl, run?_cons _ hd rfl⟩
  | literal hd => exact ⟨.literalMessage, rfl, run?_cons _ hd rfl⟩
  | preceding hs h ih =>
    obtain ⟨st, h1, h2⟩ := ih below
    exact ⟨st, h1, (run?_cons _ hs rfl).trans h2⟩
  | onePass ha hs h ih =>
    obtain ⟨st, h1, h2⟩ := ih (.sig :: below)
    refine ⟨.signedMessage, rfl, ?_⟩
    rw [run?_cons ⟨.openPgpMessage, .msg :: .sig :: below⟩ ha rfl, List.filterMap_append,
      Configuration.run?_append, h2, Option.bind_some,
      run?_cons ⟨.signedMessage, below⟩ hs (by cases st <;> first | rfl | cases h1)]
    rfl

end

/-! ## The recursive reading -/

namespace InputSymbol

theorem message?_keys {ks rest : List InputSymbol} (hk : ∀ k ∈ ks, k = .encryptedSessionKey) :
    message? (ks ++ .encryptedData :: rest) = some rest := by
  cases ks with
  | nil => simp [message?]
  | cons k ks =>
    obtain rfl := hk k (by simp)
    have : (ks ++ .encryptedData :: rest).dropWhile (· = .encryptedSessionKey) =
        .encryptedData :: rest := by
      rw [List.dropWhile_append_of_pos (by simpa using fun x hx => hk x (by simp [hx]))]
      rfl
    simp [message?, this]

/-- A message at the front is read off, whatever follows it. -/
theorem message?_append {m rest : List InputSymbol} {o : Outline InputSymbol}
    (h : Message some m o) : message? (m ++ rest) = some rest := by
  induction h generalizing rest with
  | encrypted hk hd =>
    cases hd
    rw [List.append_assoc]
    exact message?_keys fun k hk' => Option.some.inj (hk k hk')
  | compressed hd => cases hd; simp [message?]
  | literal hd => cases hd; simp [message?]
  | preceding hs h ih => cases hs; simpa [message?] using ih
  | onePass ha hs h ih =>
    cases ha
    cases hs
    simp [message?, ih]

theorem message_of_message? {symbols rest : List InputSymbol} (h : message? symbols = some rest) :
    ∃ m o, symbols = m ++ rest ∧ Message some m o := by
  fun_induction message? symbols generalizing rest with
  | case1 symbols rest' e =>
    cases h
    have split := List.takeWhile_append_dropWhile (p := fun x => decide (x = encryptedSessionKey))
      (l := symbols)
    rw [e] at split
    refine ⟨(.encryptedSessionKey :: symbols.takeWhile (· = .encryptedSessionKey)) ++ [.encryptedData],
      _, by simp [split], .encrypted (fun k hk => ?_) rfl⟩
    rcases List.mem_cons.mp hk with rfl | hk
    · rfl
    · have := List.all_eq_true.mp List.all_takeWhile k hk
      simpa using this
  | case2 => cases h
  | case3 rest' =>
    cases h
    exact ⟨[] ++ [.encryptedData], _, rfl, .encrypted (List.forall_mem_nil _) rfl⟩
  | case4 rest' => cases h; exact ⟨[.compressedData], _, rfl, .compressed rfl⟩
  | case5 rest' => cases h; exact ⟨[.literalData], _, rfl, .literal rfl⟩
  | case6 symbols ih =>
    obtain ⟨m, o, rfl, hm⟩ := ih h
    exact ⟨.signature :: m, _, rfl, .preceding rfl hm⟩
  | case7 symbols rest' e ih =>
    cases h
    obtain ⟨m, o, rfl, hm⟩ := ih e
    exact ⟨.onePassSignature :: (m ++ [.signature]), _, by simp, .onePass rfl rfl hm⟩
  | case8 => cases h
  | case9 => cases h

/-- The recursive reading leaves nothing behind exactly on the messages. -/
theorem message?_eq_some_nil_iff (symbols : List InputSymbol) :
    message? symbols = some [] ↔ ∃ o, Message some symbols o := by
  constructor
  · intro h
    obtain ⟨m, o, rfl, hm⟩ := message_of_message? h
    exact ⟨o, by rwa [List.append_nil]⟩
  · rintro ⟨o, hm⟩
    have : message? (symbols ++ []) = some [] := message?_append hm
    rwa [List.append_nil] at this

end InputSymbol

/-! ## Agreement -/

namespace Configuration

theorem run?_valid {inputs : List InputSymbol} {c : Configuration}
    (h : run? ⟨.valid, [.terminus]⟩ inputs = some c) : inputs = [] := by
  cases inputs with
  | nil => rfl
  | cons s inputs =>
    obtain ⟨c', hc', -⟩ := Option.bind_eq_some_iff.mp h
    have := (Sketch.next?_terminus hc').1
    cases this

theorem ne_end_of_run? {symbols : List InputSymbol} {c : Configuration}
    (h : initial.run? (symbols ++ [.endOfSequence]) = some c) :
    ∀ s ∈ symbols, some s ≠ some InputSymbol.endOfSequence := by
  intro s hs e
  obtain rfl := Option.some.inj e
  obtain ⟨before, behind, rfl, hfirst⟩ := List.eq_append_cons_of_mem hs
  rw [List.append_assoc, List.cons_append, run?_append] at h
  obtain ⟨c₁, h₁, h⟩ := Option.bind_eq_some_iff.mp h
  obtain ⟨c₂, h₂, h⟩ := Option.bind_eq_some_iff.mp h
  have hbefore : ∀ x ∈ before, some x ≠ some InputSymbol.endOfSequence :=
    fun x hx e => hfirst (Option.some.inj e ▸ hx)
  obtain ⟨rfl, -⟩ := message_of_run? hbefore (by simpa using h₁) h₂
  have := run?_valid h
  simp at this

end Configuration

namespace Automaton

/-- Whether the automaton accepts some symbols and then the end, and is valid there. -/
def Completes (a : Automaton) (symbols : List InputSymbol) : Prop :=
  ∃ a', a.accept? (symbols ++ [.endOfSequence]) = some a' ∧ a'.isValid = true

theorem completes_nil_iff {a : Automaton} :
    a.Completes [] ↔ ∃ a', a.next .endOfSequence = (.ok (), a') ∧ a'.isValid = true := by
  rw [Completes, List.nil_append, accept?]
  split
  · next b hb => simp [accept?, hb]
  · next hb => simp [hb]

theorem completes_cons_iff {a : Automaton} {s : InputSymbol} {symbols : List InputSymbol} :
    a.Completes (s :: symbols) ↔ ∃ a', a.next s = (.ok (), a') ∧ a'.Completes symbols := by
  rw [Completes, List.cons_append, accept?]
  split
  · next b hb => simp [hb, Completes]
  · next hb => simp [hb]

theorem completes_of_message {α : Type} {symbol? : α → Option InputSymbol} {xs : List α} {o : Outline α}
    (hm : Message symbol? xs o) : initial.Completes (xs.filterMap symbol?) := by
  obtain ⟨st, hst, hrun⟩ := hm.run [.terminus]
  have hend : Configuration.next? ⟨st, [.terminus]⟩ .endOfSequence = some ⟨.valid, [.terminus]⟩ := by
    cases st <;> first | rfl | cases hst
  have hall : Configuration.initial.run? (xs.filterMap symbol? ++ [.endOfSequence]) =
      some ⟨.valid, [.terminus]⟩ := by
    rw [Configuration.run?_append, Configuration.initial, hrun]
    simpa [Configuration.run?] using hend
  exact ⟨_, (accept?_eq_some_iff rfl).mpr ⟨_, hall, rfl⟩, rfl⟩

/-- From the start the automaton completes exactly the messages of the grammar. -/
theorem initial_completes_iff (symbols : List InputSymbol) :
    initial.Completes symbols ↔ ∃ o, Message some symbols o := by
  constructor
  · rintro ⟨a, ha, -⟩
    have hrun := run?_of_accept? ha
    have hs := Configuration.ne_end_of_run? hrun
    obtain ⟨c, hc, hend⟩ := Configuration.run?_concat_eq hrun
    obtain ⟨-, -, d, -, hm⟩ := message_of_run? hs (by simpa using hc) hend
    rw [visible_some] at hm
    exact ⟨_, hm⟩
  · rintro ⟨o, hm⟩
    simpa using completes_of_message hm

end Automaton

/-- **One language.** The automaton accepts every symbol of a sequence and then its end, and is valid
there, exactly when the recursive reading takes the whole sequence for one message, which is when the
grammar derives it. -/
theorem automaton_accepts_iff_message? (symbols : List InputSymbol) :
    ((∃ a, Automaton.initial.accept? (symbols ++ [.endOfSequence]) = some a ∧ a.isValid = true) ↔
      InputSymbol.message? symbols = some []) ∧
    (InputSymbol.message? symbols = some [] ↔ ∃ o, Message some symbols o) := by
  have hgrammar := InputSymbol.message?_eq_some_nil_iff symbols
  exact ⟨(Automaton.initial_completes_iff symbols).trans hgrammar.symm, hgrammar⟩

end OpenPGP
