/-!
# Where a result comes from

The readers are chains of steps that may fail. A chain that succeeded is taken
apart here into its steps, one that failed into the steps up to the failure.

Results:
* `Except.bind_eq_ok`, `Except.map_eq_ok`, `Except.mapError_eq_ok`: every part succeeded.
* `Except.bind_eq_error`, `Except.map_eq_error`, `Except.mapError_eq_error`: one of the parts failed.
* `SameOutcome.map`, `SameUnless.map`: two chains that come to the same failure or to related results,
  or the first of which fails in its own way.
-/
namespace Except

variable {ε ε' α β : Type}

theorem bind_eq_ok {x : Except ε α} {f : α → Except ε β} {b : β} :
    (x >>= f) = .ok b ↔ ∃ a, x = .ok a ∧ f a = .ok b := by
  cases x with
  | error e => exact ⟨fun h => (by cases h), fun ⟨_, h, _⟩ => (by cases h)⟩
  | ok a => exact ⟨fun h => ⟨a, rfl, h⟩, fun ⟨_, h, h'⟩ => (by cases h; exact h')⟩

theorem bind_eq_error {x : Except ε α} {f : α → Except ε β} {e : ε} :
    (x >>= f) = .error e ↔ x = .error e ∨ ∃ a, x = .ok a ∧ f a = .error e := by
  cases x with
  | error e' =>
    refine ⟨fun h => .inl (congrArg error (Except.error.inj h)), ?_⟩
    rintro (h | ⟨_, h, _⟩)
    · exact congrArg error (Except.error.inj h)
    · cases h
  | ok a =>
    refine ⟨fun h => .inr ⟨a, rfl, h⟩, ?_⟩
    rintro (h | ⟨_, h, h'⟩)
    · cases h
    · cases h
      exact h'

theorem map_eq_ok {x : Except ε α} {f : α → β} {b : β} :
    x.map f = .ok b ↔ ∃ a, x = .ok a ∧ f a = b := by
  cases x with
  | error e => exact ⟨fun h => (by cases h), fun ⟨_, h, _⟩ => (by cases h)⟩
  | ok a => exact ⟨fun h => ⟨a, rfl, Except.ok.inj h⟩, fun ⟨_, h, h'⟩ => (by cases h; rw [← h']; rfl)⟩

theorem mapError_eq_ok {x : Except ε α} {f : ε → ε'} {a : α} :
    x.mapError f = .ok a ↔ x = .ok a := by
  cases x with
  | error e => exact ⟨fun h => (by cases h), fun h => (by cases h)⟩
  | ok a => exact ⟨fun h => congrArg ok (Except.ok.inj h), fun h => congrArg ok (Except.ok.inj h)⟩

theorem map_eq_error {x : Except ε α} {f : α → β} {e : ε} : x.map f = .error e ↔ x = .error e := by
  cases x with
  | error e' => exact ⟨fun h => congrArg error (Except.error.inj h), fun h => congrArg error (Except.error.inj h)⟩
  | ok a => exact ⟨fun h => (by cases h), fun h => (by cases h)⟩

theorem mapError_eq_error {x : Except ε α} {f : ε → ε'} {e : ε'} :
    x.mapError f = .error e ↔ ∃ e', x = .error e' ∧ f e' = e := by
  cases x with
  | error e' => exact ⟨fun h => ⟨e', rfl, Except.error.inj h⟩, fun ⟨_, h, h'⟩ => (by cases h; rw [← h']; rfl)⟩
  | ok a => exact ⟨fun h => (by cases h), fun ⟨_, h, _⟩ => (by cases h)⟩

end Except

namespace OpenPGP

/-- Two results that are the same failure, or alike. -/
inductive SameOutcome {ε α β : Type} (R : α → β → Prop) : Except ε α → Except ε β → Prop
  | ok {a : α} {b : β} (h : R a b) : SameOutcome R (.ok a) (.ok b)
  | error (e : ε) : SameOutcome R (.error e) (.error e)

namespace SameOutcome

variable {ε α β : Type} {R : α → β → Prop}

theorem of_ok {a : α} {y : Except ε β} (h : SameOutcome R (.ok a) y) : ∃ b, y = .ok b ∧ R a b := by
  cases h with
  | ok h => exact ⟨_, rfl, h⟩

theorem of_error {e : ε} {y : Except ε β} (h : SameOutcome R (.error e) y) : y = .error e := by
  cases h
  rfl

theorem map {α' β' : Type} {R' : α' → β' → Prop} {f : α → α'} {g : β → β'} {x : Except ε α}
    {y : Except ε β} (h : SameOutcome R x y) (hfg : ∀ a b, R a b → R' (f a) (g b)) :
    SameOutcome R' (x.map f) (y.map g) := by
  cases h with
  | ok h => exact .ok (hfg _ _ h)
  | error e => exact .error e

end SameOutcome

/-- Two results that are the same failure, or alike, unless the first is a failure of some kind. -/
inductive SameUnless {ε α β : Type} (p : ε → Prop) (R : α → β → Prop) : Except ε α → Except ε β → Prop
  | same {x : Except ε α} {y : Except ε β} (h : SameOutcome R x y) : SameUnless p R x y
  | fails {e : ε} (h : p e) (y : Except ε β) : SameUnless p R (.error e) y

namespace SameUnless

variable {ε α β : Type} {p : ε → Prop} {R : α → β → Prop}

theorem of_ok {a : α} {y : Except ε β} (h : SameUnless p R (.ok a) y) : ∃ b, y = .ok b ∧ R a b := by
  cases h with
  | same h => exact h.of_ok

theorem of_error {e : ε} {y : Except ε β} (h : SameUnless p R (.error e) y) : y = .error e ∨ p e := by
  cases h with
  | same h => exact .inl h.of_error
  | fails h => exact .inr h

theorem map {α' β' : Type} {R' : α' → β' → Prop} {f : α → α'} {g : β → β'} {x : Except ε α}
    {y : Except ε β} (h : SameUnless p R x y) (hfg : ∀ a b, R a b → R' (f a) (g b)) :
    SameUnless p R' (x.map f) (y.map g) := by
  cases h with
  | same h => exact .same (h.map hfg)
  | fails h => exact .fails h _

end SameUnless

end OpenPGP
