/-!
# Descent of nested work

Work on nested layers is a list of numbers, the outermost layer first: what each
layer has left. Taking from the innermost layer may open further layers with any
amount of work inside, so the sum may grow. In lexicographic order the list still
descends, and as long as it has a greatest length it cannot descend for ever.

Results:
* `lt_of_take`: taking from a layer descends, whatever is opened inside.
* `lt_of_close`: closing the innermost layer descends.
* `wellFounded_lt`: there is no endless descent.
-/
namespace OpenPGP

/-- What at most `depth` nested layers have left, outermost first. -/
abbrev NestedWork (depth : Nat) := { work : List Nat // work.length ≤ depth }

namespace NestedWork

/-- The lexicographic order; a layer without the layers inside it comes first. -/
def lt {depth : Nat} (a b : NestedWork depth) : Prop := List.Lex (· < ·) a.val b.val

theorem lex_append (outer : List Nat) {a b : List Nat} (h : List.Lex (· < ·) a b) :
    List.Lex (· < ·) (outer ++ a) (outer ++ b) := by
  induction outer with
  | nil => exact h
  | cons x outer ih => exact .cons ih

theorem lt_of_take {outer inner rest : List Nat} {left before : Nat} (h : left < before) :
    List.Lex (· < ·) (outer ++ left :: inner) (outer ++ before :: rest) :=
  lex_append outer (.rel h)

theorem lt_of_close {outer : List Nat} {left : Nat} {rest : List Nat} :
    List.Lex (· < ·) outer (outer ++ left :: rest) := by
  simpa using lex_append outer (List.Lex.nil : List.Lex (· < ·) [] (left :: rest))

theorem lex_trans {a b c : List Nat} (h : List.Lex (· < ·) a b) (h' : List.Lex (· < ·) b c) :
    List.Lex (· < ·) a c := by
  induction h generalizing c with
  | nil => cases h' <;> exact .nil
  | rel h =>
    cases h' with
    | rel h' => exact .rel (Nat.lt_trans h h')
    | cons _ => exact .rel h
  | cons _ ih =>
    cases h' with
    | rel h' => exact .rel h'
    | cons h' => exact .cons (ih h')

/-- The work of the outermost layer, zero if there is none, and that of the layers inside it. -/
def split {depth : Nat} : NestedWork (depth + 1) → Nat × NestedWork depth
  | ⟨[], _⟩ => (0, ⟨[], Nat.zero_le depth⟩)
  | ⟨x :: work, h⟩ => (x + 1, ⟨work, by simpa using h⟩)

theorem split_lt {depth : Nat} {a b : NestedWork (depth + 1)} (h : lt a b) :
    Prod.Lex (· < ·) lt (split a) (split b) := by
  obtain ⟨a, ha⟩ := a
  obtain ⟨b, hb⟩ := b
  cases h with
  | nil => exact .left _ _ (Nat.succ_pos _)
  | rel h => exact .left _ _ (Nat.succ_lt_succ h)
  | cons h => exact .right _ h

theorem wellFounded_lt (depth : Nat) : WellFounded (@lt depth) := by
  induction depth with
  | zero =>
    refine ⟨fun a => ⟨a, fun b h => ?_⟩⟩
    obtain ⟨a, ha⟩ := a
    obtain rfl : a = [] := List.length_eq_zero_iff.mp (Nat.le_zero.mp ha)
    exact absurd h List.not_lex_nil
  | succ depth ih =>
    exact Subrelation.wf split_lt (InvImage.wf split (Prod.lex Nat.lt_wfRel ⟨lt, ih⟩).wf)

instance (depth : Nat) : WellFoundedRelation (NestedWork depth) := ⟨lt, wellFounded_lt depth⟩

end NestedWork

end OpenPGP
