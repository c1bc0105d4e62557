import Mathlib.AlgebraicGeometry.EllipticCurve.Affine.Point
import OpenPGP.Crypto.Curve.X25519
import OpenPGP.Proofs.Curve.Field
/-!
# The group of the curve

The points of `v² = u³ + 486662 u² + u`, with a point at infinity, are a group. The
ladder computes the multiples of a point by the coordinate `u` alone, as fractions with
a zero denominator at infinity: it keeps two multiples that differ by the point.

Results:
* `Represents.double`, `Represents.add_of_sub`: what one step of the ladder computes.
* `X25519.cast_multiply`: the ladder computes the `u` of a multiple.
-/
namespace OpenPGP.Crypto

open Field25519

namespace Curve25519

/-! ## Points -/

/-- The curve in its Montgomery form. -/
def curve : WeierstrassCurve.Affine Element := ⟨0, 486662, 0, 1, 0⟩

/-- The points of the curve. -/
abbrev Point : Type := curve.Point

theorem equation_iff (u v : Element) : curve.Equation u v ↔ v ^ 2 = u ^ 3 + 486662 * u ^ 2 + u := by
  rw [WeierstrassCurve.Affine.equation_iff]
  simp [curve]

theorem nonsingular_iff (u v : Element) : curve.Nonsingular u v ↔ v ^ 2 = u ^ 3 + 486662 * u ^ 2 + u := by
  rw [← equation_iff]
  refine (WeierstrassCurve.Affine.equation_iff_nonsingular_of_Δ_ne_zero ?_).symm
  simp only [WeierstrassCurve.Δ, WeierstrassCurve.b₂, WeierstrassCurve.b₄, WeierstrassCurve.b₆,
    WeierstrassCurve.b₈, curve]
  decide

/-- A point from its coordinates. -/
def Point.of (u v : Element) (h : v ^ 2 = u ^ 3 + 486662 * u ^ 2 + u) : Point :=
  .some u v ((nonsingular_iff u v).mpr h)

theorem Point.cases {motive : Point → Prop} (zero : motive 0)
    (of : ∀ u v h, motive (.of u v h)) (p : Point) : motive p := by
  cases p with
  | zero => exact zero
  | some u v h => exact of u v ((nonsingular_iff u v).mp h)

theorem Point.of_inj {u v u' v' : Element} {h h'} :
    Point.of u v h = Point.of u' v' h' ↔ u = u' ∧ v = v' := by
  simp [Point.of]

theorem Point.of_ne_zero {u v : Element} (h) : Point.of u v h ≠ 0 :=
  WeierstrassCurve.Affine.Point.some_ne_zero _

theorem negY_eq (u v : Element) : curve.negY u v = -v := by
  simp [WeierstrassCurve.Affine.negY, curve]

theorem Point.neg_of {u v : Element} (h) :
    -Point.of u v h = Point.of u (-v) (by rw [neg_sq, h]) := by
  rw [Point.of, WeierstrassCurve.Affine.Point.neg_some]
  simp only [Point.of, negY_eq]

/-- The sum of points that are not opposite, by the slope of the line through them. -/
theorem Point.of_add_of_slope {u₁ v₁ u₂ v₂ u₃ v₃ l : Element} (h₁) (h₂) (ho : ¬(u₁ = u₂ ∧ v₁ = -v₂))
    (hl : curve.slope u₁ u₂ v₁ v₂ = l) (hu₃ : u₃ = l ^ 2 - 486662 - u₁ - u₂)
    (hv₃ : v₃ = l * (u₁ - u₃) - v₁) :
    ∃ h₃, Point.of u₁ v₁ h₁ + Point.of u₂ v₂ h₂ = Point.of u₃ v₃ h₃ := by
  rw [← negY_eq u₂ v₂] at ho
  have hx : curve.addX u₁ u₂ l = u₃ := by
    rw [hu₃]
    simp [WeierstrassCurve.Affine.addX, curve]
  have hy : curve.addY u₁ u₂ v₁ l = v₃ := by
    rw [WeierstrassCurve.Affine.addY, negY_eq, WeierstrassCurve.Affine.negAddY, hx, hv₃]
    ring
  have hadd : Point.of u₁ v₁ h₁ + Point.of u₂ v₂ h₂ = .some _ _ _ :=
    WeierstrassCurve.Affine.Point.add_some ho
  have hsum := WeierstrassCurve.Affine.nonsingular_add ((nonsingular_iff u₁ v₁).mpr h₁)
    ((nonsingular_iff u₂ v₂).mpr h₂) ho
  simp only [hl, hx, hy] at hadd hsum
  exact ⟨(nonsingular_iff _ _).mp hsum, hadd⟩

theorem Point.of_add_of {u₁ v₁ u₂ v₂ u₃ v₃ l : Element} (h₁) (h₂) (hu : u₁ ≠ u₂)
    (hl : l * (u₁ - u₂) = v₁ - v₂) (hu₃ : u₃ = l ^ 2 - 486662 - u₁ - u₂)
    (hv₃ : v₃ = l * (u₁ - u₃) - v₁) :
    ∃ h₃, Point.of u₁ v₁ h₁ + Point.of u₂ v₂ h₂ = Point.of u₃ v₃ h₃ := by
  refine Point.of_add_of_slope h₁ h₂ (fun h => hu h.1) ?_ hu₃ hv₃
  rw [WeierstrassCurve.Affine.slope_of_X_ne hu, ← hl, mul_div_cancel_right₀ _ (sub_ne_zero.mpr hu)]

theorem Point.of_add_self {u v u₃ v₃ l : Element} (h) (hv : v ≠ 0)
    (hl : l * (2 * v) = 3 * u ^ 2 + 2 * 486662 * u + 1) (hu₃ : u₃ = l ^ 2 - 486662 - u - u)
    (hv₃ : v₃ = l * (u - u₃) - v) :
    ∃ h₃, Point.of u v h + Point.of u v h = Point.of u₃ v₃ h₃ := by
  have hne : v ≠ -v := (neg_ne_self hv).symm
  refine Point.of_add_of_slope h h (fun h => hne h.2) ?_ hu₃ hv₃
  rw [WeierstrassCurve.Affine.slope_of_Y_ne rfl (by rwa [negY_eq]), negY_eq, sub_neg_eq_add, ← two_mul,
    div_eq_iff (mul_ne_zero two_ne hv), hl]
  simp [curve]

theorem Point.of_add_neg {u v : Element} (h) (h') : Point.of u v h + Point.of u (-v) h' = 0 := by
  rw [← Point.neg_of h, add_neg_cancel]

/-- The points with `v = 0` are their own opposites. -/
theorem Point.of_zero_add_self {u : Element} {h} : Point.of u 0 h + Point.of u 0 h = 0 := by
  simpa only [neg_zero] using Point.of_add_neg h (by rwa [neg_zero])

theorem Point.double_eq {u v : Element} (h) (hv : v ≠ 0) : ∃ u₃ v₃ h₃,
    Point.of u v h + Point.of u v h = Point.of u₃ v₃ h₃ ∧ 4 * v ^ 2 * u₃ = (u ^ 2 - 1) ^ 2 := by
  have h2 := two_ne
  obtain ⟨h₃, hsum⟩ := Point.of_add_self h hv
    (l := (3 * u ^ 2 + 2 * 486662 * u + 1) / (2 * v)) (div_mul_cancel₀ _ (mul_ne_zero h2 hv)) rfl rfl
  refine ⟨_, _, h₃, hsum, ?_⟩
  field_simp
  linear_combination (-16 * (486662 + 2 * u)) * h

theorem Point.add_sub_eq {a b c d : Element} (h) (h') (hac : a ≠ c) : ∃ u v hd u₃ v₃ hs,
    Point.of c d h' - Point.of a b h = Point.of u v hd ∧
      Point.of a b h + Point.of c d h' = Point.of u₃ v₃ hs ∧ u₃ * u * (c - a) ^ 2 = (c * a - 1) ^ 2 := by
  have hne : a - c ≠ 0 := sub_ne_zero.mpr hac
  have hne' : c - a ≠ 0 := sub_ne_zero.mpr hac.symm
  obtain ⟨hs, hsum⟩ := Point.of_add_of h h' hac (l := (b - d) / (a - c))
    (div_mul_cancel₀ _ hne) rfl rfl
  obtain ⟨hd, hdiff⟩ := Point.of_add_of h' (by rw [neg_sq, h]) hac.symm
    (l := (d - -b) / (c - a)) (div_mul_cancel₀ _ hne') rfl rfl
  refine ⟨_, _, hd, _, _, hs, ?_, hsum, ?_⟩
  · rw [sub_eq_add_neg, Point.neg_of, hdiff]
  · rw [← neg_sub c a] at hne ⊢
    field_simp
    linear_combination
      (b ^ 2 - d ^ 2 + (a ^ 3 + 486662 * a ^ 2 + a) - (c ^ 3 + 486662 * c ^ 2 + c)) * (h - h') -
        2 * ((486662 + a + c) * (c - a) ^ 2) * (h + h')

/-! ## Fractions -/

/-- Whether a fraction is the `u` of a point; at infinity, the denominator is zero. -/
def Represents (x z : Element) (p : Point) : Prop :=
  (p = 0 ∧ x ≠ 0 ∧ z = 0) ∨ ∃ u v h, p = .of u v h ∧ z ≠ 0 ∧ x = u * z

theorem represents_zero {x z : Element} : Represents x z 0 ↔ x ≠ 0 ∧ z = 0 := by
  simp [Represents, (Point.of_ne_zero _).symm]

theorem represents_of {x z u v : Element} {h} : Represents x z (.of u v h) ↔ z ≠ 0 ∧ x = u * z := by
  constructor
  · rintro (⟨h0, -⟩ | ⟨u', v', h', he, hz⟩)
    · exact absurd h0 (Point.of_ne_zero h)
    · rwa [(Point.of_inj.mp he).1]
  · exact fun hz => .inr ⟨u, v, h, rfl, hz⟩

/-- The doubling of the ladder. -/
theorem Represents.double {x z : Element} {p : Point} (h : Represents x z p) :
    Represents ((x + z) ^ 2 * (x - z) ^ 2)
      (((x + z) ^ 2 - (x - z) ^ 2) * ((x + z) ^ 2 + 121665 * ((x + z) ^ 2 - (x - z) ^ 2))) (p + p) := by
  induction p using Point.cases with
  | zero =>
    obtain ⟨hx, rfl⟩ := represents_zero.mp h
    rw [add_zero]
    refine represents_zero.mpr ⟨?_, by ring⟩
    simpa using hx
  | of u v hp =>
    obtain ⟨hz, rfl⟩ := represents_of.mp h
    have hden : ((u * z + z) ^ 2 - (u * z - z) ^ 2) *
        ((u * z + z) ^ 2 + 121665 * ((u * z + z) ^ 2 - (u * z - z) ^ 2)) = 4 * z ^ 4 * v ^ 2 := by
      rw [hp]
      ring
    rw [hden]
    by_cases hv : v = 0
    · subst hv
      rw [Point.of_zero_add_self]
      refine represents_zero.mpr ⟨?_, by ring⟩
      have h1 : u ≠ 1 := by
        rintro rfl
        exact absurd hp (by decide)
      have h2 : u ≠ -1 := by
        rintro rfl
        exact absurd hp (by decide)
      rw [show (u * z + z) ^ 2 * (u * z - z) ^ 2 = (z ^ 2 * (u - -1) * (u - 1)) ^ 2 by ring]
      exact pow_ne_zero 2 (mul_ne_zero (mul_ne_zero (pow_ne_zero 2 hz) (sub_ne_zero.mpr h2))
        (sub_ne_zero.mpr h1))
    · obtain ⟨u₃, v₃, h₃, hsum, hu₃⟩ := Point.double_eq hp hv
      rw [hsum]
      refine represents_of.mpr ⟨?_, by linear_combination -(z ^ 4) * hu₃⟩
      rw [show (4 : Element) * z ^ 4 * v ^ 2 = (2 * z ^ 2 * v) ^ 2 by ring]
      exact pow_ne_zero 2 (mul_ne_zero (mul_ne_zero two_ne (pow_ne_zero 2 hz)) hv)

/-- The sum of the ladder: two points whose difference has a known `u`. -/
theorem Represents.add_of_sub {x₂ z₂ x₃ z₃ u v : Element} {p q : Point} {h} (hp : Represents x₂ z₂ p)
    (hq : Represents x₃ z₃ q) (hs : q - p = .of u v h) (hu : u ≠ 0) :
    Represents (((x₃ - z₃) * (x₂ + z₂) + (x₃ + z₃) * (x₂ - z₂)) ^ 2)
      (u * ((x₃ - z₃) * (x₂ + z₂) - (x₃ + z₃) * (x₂ - z₂)) ^ 2) (p + q) := by
  have hsum : (x₃ - z₃) * (x₂ + z₂) + (x₃ + z₃) * (x₂ - z₂) = 2 * (x₃ * x₂ - z₃ * z₂) := by ring
  have hdiff : (x₃ - z₃) * (x₂ + z₂) - (x₃ + z₃) * (x₂ - z₂) = 2 * (x₃ * z₂ - z₃ * x₂) := by ring
  rw [hsum, hdiff]
  have h2 := two_ne
  induction p using Point.cases with
  | zero =>
    obtain ⟨hx, rfl⟩ := represents_zero.mp hp
    rw [sub_zero] at hs
    subst hs
    obtain ⟨hz, rfl⟩ := represents_of.mp hq
    rw [zero_add]
    refine represents_of.mpr ⟨?_, by ring⟩
    simp [hu, hz, hx, h2]
  | of a b ha =>
    obtain ⟨hz₂, rfl⟩ := represents_of.mp hp
    induction q using Point.cases with
    | zero =>
      obtain ⟨hx, rfl⟩ := represents_zero.mp hq
      rw [zero_sub, Point.neg_of, Point.of_inj] at hs
      obtain ⟨rfl, -⟩ := hs
      rw [add_zero]
      refine represents_of.mpr ⟨?_, by ring⟩
      simp [hu, hz₂, hx, h2]
    | of c d hc =>
      obtain ⟨hz₃, rfl⟩ := represents_of.mp hq
      have hz : z₃ * z₂ ≠ 0 := mul_ne_zero hz₃ hz₂
      by_cases hac : a = c
      · -- the points are opposite, since they differ
        subst hac
        obtain rfl : d = -b := by
          refine (sq_eq_sq_iff_eq_or_eq_neg.mp (hc.trans ha.symm)).resolve_left ?_
          rintro rfl
          rw [sub_self] at hs
          exact (Point.of_ne_zero h) hs.symm
        rw [Point.of_add_neg]
        refine represents_zero.mpr ⟨?_, by ring⟩
        have hb : b ≠ 0 := by
          rintro rfl
          simp only [neg_zero, sub_self] at hs
          exact (Point.of_ne_zero h) hs.symm
        obtain ⟨u₃, v₃, h₃, hdouble, hu₃⟩ := Point.double_eq ha hb
        have hneg : Point.of u v h = -Point.of u₃ v₃ h₃ := by
          rw [← hdouble, ← hs, ← Point.neg_of ha]
          abel
        rw [Point.neg_of, Point.of_inj] at hneg
        obtain ⟨rfl, -⟩ := hneg
        have ha1 : a * a - 1 ≠ 0 := by
          intro h0
          have : (4 : Element) * b ^ 2 * u = 0 := by linear_combination hu₃ + (a * a - 1) * h0
          exact mul_ne_zero (mul_ne_zero (by decide) (pow_ne_zero 2 hb)) hu this
        rw [show a * z₃ * (a * z₂) - z₃ * z₂ = (a * a - 1) * (z₃ * z₂) by ring]
        exact pow_ne_zero 2 (mul_ne_zero two_ne (mul_ne_zero ha1 hz))
      · obtain ⟨u', v', hd, u₃, v₃, h₃, hdiff, hadd, hprod⟩ := Point.add_sub_eq ha hc hac
        obtain ⟨rfl, -⟩ := Point.of_inj.mp (hdiff.symm.trans hs)
        rw [hadd]
        refine represents_of.mpr ⟨?_, by linear_combination (-4 * z₃ ^ 2 * z₂ ^ 2) * hprod⟩
        rw [show c * z₃ * z₂ - z₃ * (a * z₂) = z₃ * z₂ * (c - a) by ring]
        exact mul_ne_zero hu (pow_ne_zero 2 (mul_ne_zero two_ne (mul_ne_zero hz
          (sub_ne_zero.mpr (Ne.symm hac)))))

/-- The `u` of a point, zero at infinity. -/
def Point.abscissa : Point → Element
  | .zero => 0
  | .some u _ _ => u

@[simp] theorem Point.abscissa_zero : (0 : Point).abscissa = 0 := rfl

@[simp] theorem Point.abscissa_of {u v : Element} (h) : (Point.of u v h).abscissa = u := rfl

@[simp] theorem Point.abscissa_neg (p : Point) : (-p).abscissa = p.abscissa := by
  induction p using Point.cases with
  | zero => rfl
  | of u v h => rw [Point.neg_of, Point.abscissa_of, Point.abscissa_of]

theorem Point.exists_of_abscissa {p : Point} (h : p.abscissa ≠ 0) : ∃ v h, p = .of p.abscissa v h := by
  induction p using Point.cases with
  | zero => exact absurd rfl h
  | of u v hp => exact ⟨v, hp, rfl⟩

theorem Represents.div_eq {x z : Element} {p : Point} (h : Represents x z p) : x / z = p.abscissa := by
  obtain ⟨rfl, -, rfl⟩ | ⟨u, v, h, rfl, hz, rfl⟩ := h
  · rw [div_zero, Point.abscissa_zero]
  · rw [mul_div_cancel_right₀ _ hz, Point.abscissa_of]

end Curve25519

/-! ## The ladder -/

namespace X25519

open Curve25519

variable {l : Ladder} {u : Nat} {p q : Point}

/-- Whether the ladder holds the `u` of two points. -/
structure Ladder.Holds (l : Ladder) (p q : Point) : Prop where
  first : Represents l.x2 l.z2 p
  second : Represents l.x3 l.z3 q

theorem Ladder.Holds.swap (h : l.Holds p q) : l.swap.Holds q p := ⟨h.second, h.first⟩

theorem Ladder.Holds.advance (h : l.Holds p q) (hs : (q - p).abscissa = u) (hu : (u : Element) ≠ 0) :
    (l.advance u).Holds (p + p) (p + q) := by
  obtain ⟨v, hv, he⟩ := Point.exists_of_abscissa (p := q - p) (by rwa [hs])
  have hsum := h.first.add_of_sub h.second he (by rwa [hs])
  have hdouble := h.first.double
  rw [hs] at hsum
  constructor
  · simp only [Ladder.advance, cast_mul, cast_sub, Field25519.cast_add]
    convert hdouble using 1 <;> push_cast <;> ring
  · simp only [Ladder.advance, cast_mul, cast_sub, Field25519.cast_add]
    convert hsum using 1 <;> ring

theorem Ladder.Holds.bit (hp : p.abscissa = u) (hu : (u : Element) ≠ 0) {k : Nat}
    (h : l.Holds (k • p) ((k + 1) • p)) (b : Bool) :
    (if b then (l.swap.advance u).swap else l.advance u).Holds ((2 * k + b.toNat) • p)
      ((2 * k + b.toNat + 1) • p) := by
  cases b with
  | false =>
    have hstep := h.advance (by rw [succ_nsmul, add_sub_cancel_left, hp]) hu
    rwa [← add_nsmul, ← add_nsmul, ← add_assoc, ← two_mul] at hstep
  | true =>
    have hneg : (k • p - (k + 1) • p).abscissa = u := by
      rw [succ_nsmul, sub_add_cancel_left, Point.abscissa_neg, hp]
    have hstep := (h.swap.advance hneg hu).swap
    rwa [← add_nsmul, ← add_nsmul, show k + 1 + k = 2 * k + 1 by ring,
      show k + 1 + (k + 1) = 2 * k + 1 + 1 by ring] at hstep

/-- From two multiples that differ by a point, the ladder goes on by the bits of the scalar. -/
theorem Ladder.Holds.ladder (hp : p.abscissa = u) (hu : (u : Element) ≠ 0) (scalar bits : Nat) {k : Nat}
    (h : l.Holds (k • p) ((k + 1) • p)) :
    (ladder u scalar bits l).Holds ((k * 2 ^ bits + scalar % 2 ^ bits) • p)
      ((k * 2 ^ bits + scalar % 2 ^ bits + 1) • p) := by
  induction bits generalizing l k with
  | zero => simpa [X25519.ladder, Nat.mod_one] using h
  | succ bits ih =>
    have hbit : (scalar.testBit bits).toNat = scalar / 2 ^ bits % 2 := by
      rw [Nat.testBit_eq_decide_div_mod_eq]
      rcases Nat.mod_two_eq_zero_or_one (scalar / 2 ^ bits) with hb | hb <;> simp [hb]
    have hk : k * 2 ^ (bits + 1) + scalar % 2 ^ (bits + 1) =
        (2 * k + (scalar.testBit bits).toNat) * 2 ^ bits + scalar % 2 ^ bits := by
      rw [Nat.mod_pow_succ, hbit]
      ring
    rw [X25519.ladder, hk]
    exact ih (h.bit hp hu _)

/-- The ladder computes the `u` of a multiple. -/
theorem cast_multiply (hp : p.abscissa = u) (hu : (u : Element) ≠ 0) {scalar : Nat}
    (h : scalar < 2 ^ 255) : ((multiply scalar u : Nat) : Element) = (scalar • p).abscissa := by
  have hstart : Ladder.Holds ⟨1, 0, u, 1⟩ (0 • p) ((0 + 1) • p) := by
    obtain ⟨v, hv, he⟩ := Point.exists_of_abscissa (p := p) (by rwa [hp])
    rw [zero_nsmul, zero_add, one_nsmul]
    refine ⟨represents_zero.mpr (by simp), ?_⟩
    rw [he]
    exact represents_of.mpr (by simp [hp])
  have hend := (hstart.ladder hp hu scalar 255).first
  rw [zero_mul, zero_add, Nat.mod_eq_of_lt h] at hend
  rw [multiply, cast_mul, cast_inverse, ← div_eq_mul_inv, hend.div_eq]

end X25519

end OpenPGP.Crypto
