import OpenPGP.Crypto.Curve.Ed25519
import OpenPGP.Proofs.Curve.BasePoint
/-!
# The Edwards form of the curve

The points of `-x² + y² = 1 + d x² y²` have a law of addition without exceptions, because
`d` is no square. They are points of the Montgomery form in other coordinates, and
their sums are the sums there, so that multiples of points add up as they should.

Results:
* `Edwards.one_add_ne_zero`, `Edwards.one_sub_ne_zero`: the law of addition has no exceptions.
* `Edwards.toPoint_add`: it is the one of the group.
* `Edwards.toPoint_injective`: points are the same in both forms.
-/
namespace OpenPGP.Crypto

open Field25519 Curve25519

/-- A point in Edwards form. -/
@[ext]
structure Edwards where
  x : Element
  y : Element
  onCurve : -x ^ 2 + y ^ 2 = 1 + (Ed25519.d : Element) * x ^ 2 * y ^ 2

namespace Edwards

/-! ## The constants -/

/-- The constant of the curve. -/
abbrev d : Element := (Ed25519.d : Element)

theorem d_mul : d * 121666 = -121665 := by
  rw [d, Ed25519.d, cast_mul, cast_sub, cast_inverse]
  have h : ((121666 : Nat) : Element) ≠ 0 := by decide
  have hd : ((0 : Nat) - (121665 : Nat) : Element) * ((121666 : Nat) : Element)⁻¹ * (121666 : Nat) = -121665 := by
    rw [inv_mul_cancel_right₀ h]
    simp
  exact_mod_cast hd

/-- A number that a nonzero factor makes the constant of a square is no square itself. -/
theorem not_isSquare_d : ¬IsSquare d := by
  rintro ⟨r, hr⟩
  have hsquare : IsSquare ((prime - 121665 * 121666 : Nat) : Element) := by
    refine ⟨r * 121666, ?_⟩
    rw [Nat.cast_sub (by decide), cast_prime]
    push_cast
    linear_combination -121666 * d_mul + 121666 ^ 2 * hr
  rw [ZMod.euler_criterion prime (by decide), cast_pow_eq _ (by decide),
    show powMod prime 256 (prime - 121665 * 121666) (prime / 2) = prime - 1 by decide +kernel] at hsquare
  exact absurd hsquare (by decide)

theorem eq_zero_of_d_mul_sq {a b : Element} (h : d * a ^ 2 = b ^ 2) : a = 0 := by
  by_contra ha
  refine not_isSquare_d ⟨b / a, ?_⟩
  field_simp
  exact h

/-- The factor between the coordinates of both forms. -/
def scale : Element := 51042569399160536130206135233146329284152202253034631822681833788666877215207

theorem scale_sq : scale ^ 2 = -486664 := by decide +kernel

theorem scale_ne_zero : scale ≠ 0 := by decide

theorem d_mul_scale_sq : d * scale ^ 2 = 486660 := by
  rw [scale_sq]
  linear_combination -4 * d_mul

/-! ## Completeness -/

variable (p q : Edwards)

/-- The term in the denominators of a sum is not one, and not minus one. -/
theorem denominator_ne {e : Element} (he : e ^ 2 = 1) : d * p.x * q.x * p.y * q.y ≠ e := by
  intro h
  have hp := p.onCurve
  have hq := q.onCurve
  have hi := rootOfMinusOne_sq
  generalize ((rootOfMinusOne : Nat) : Element) = i at hi
  have hne : d * p.x * q.x * p.y * q.y ≠ 0 := by
    rw [h]
    rintro rfl
    exact absurd he (by decide)
  have hx : p.x * p.y ≠ 0 := fun h0 => hne (by linear_combination d * q.x * q.y * h0)
  have hy : q.y ≠ 0 := fun h0 => hne (by rw [h0, mul_zero])
  -- with either root of minus one, the square of one side would be `d` times a square
  have hsquare (s : Element) (hs : s ^ 2 = -1) : d * (p.x * p.y * (q.y + s * q.x)) ^ 2 =
      (p.y + s * e * p.x) ^ 2 := by
    linear_combination (d * p.x ^ 2 * p.y ^ 2 * q.x ^ 2 - e ^ 2 * p.x ^ 2) * hs +
      d * p.x ^ 2 * p.y ^ 2 * hq + (d * p.x * q.x * p.y * q.y + e + 2 * s * p.x * p.y) * h - hp +
      (1 + p.x ^ 2) * he
  have hplus := eq_zero_of_d_mul_sq (hsquare i hi)
  have hminus := eq_zero_of_d_mul_sq (hsquare (-i) (by rw [neg_sq, hi]))
  have hsum : 2 * (p.x * p.y * q.y) = 0 := by linear_combination hplus + hminus
  exact mul_ne_zero two_ne (mul_ne_zero hx hy) hsum

theorem one_add_ne_zero : 1 + d * p.x * q.x * p.y * q.y ≠ 0 := fun h =>
  denominator_ne p q (e := -1) (by ring) (by linear_combination h)

theorem one_sub_ne_zero : 1 - d * p.x * q.x * p.y * q.y ≠ 0 := fun h =>
  denominator_ne p q (e := 1) (by ring) (by linear_combination -h)

/-! ## The group -/

instance : Zero Edwards := ⟨⟨0, 1, by ring⟩⟩

@[simp] theorem zero_x : (0 : Edwards).x = 0 := rfl

@[simp] theorem zero_y : (0 : Edwards).y = 1 := rfl

instance : Neg Edwards := ⟨fun p => ⟨-p.x, p.y, by linear_combination p.onCurve⟩⟩

@[simp] theorem neg_x : (-p).x = -p.x := rfl

@[simp] theorem neg_y : (-p).y = p.y := rfl

theorem add_equation : -(p.x * q.y + q.x * p.y) ^ 2 * (1 - d * p.x * q.x * p.y * q.y) ^ 2 +
      (p.y * q.y + p.x * q.x) ^ 2 * (1 + d * p.x * q.x * p.y * q.y) ^ 2 =
    (1 + d * p.x * q.x * p.y * q.y) ^ 2 * (1 - d * p.x * q.x * p.y * q.y) ^ 2 +
      d * (p.x * q.y + q.x * p.y) ^ 2 * (p.y * q.y + p.x * q.x) ^ 2 := by
  have hp := p.onCurve
  have hq := q.onCurve
  linear_combination
    ((-q.x ^ 2 + q.y ^ 2) * (1 + d ^ 2 * p.x ^ 2 * p.y ^ 2 * q.x ^ 2 * q.y ^ 2) -
      d * q.x ^ 2 * q.y ^ 2 * (-p.x ^ 2 + p.y ^ 2 + 1 + d * p.x ^ 2 * p.y ^ 2)) * hp +
    ((1 + d * p.x ^ 2 * p.y ^ 2) * (1 + d ^ 2 * p.x ^ 2 * p.y ^ 2 * q.x ^ 2 * q.y ^ 2) -
      d * p.x ^ 2 * p.y ^ 2 * (-q.x ^ 2 + q.y ^ 2 + 1 + d * q.x ^ 2 * q.y ^ 2)) * hq

instance : Add Edwards where
  add p q :=
    { x := (p.x * q.y + q.x * p.y) / (1 + d * p.x * q.x * p.y * q.y)
      y := (p.y * q.y + p.x * q.x) / (1 - d * p.x * q.x * p.y * q.y)
      onCurve := by
        have h := add_equation p q
        have h1 := one_add_ne_zero p q
        have h2 := one_sub_ne_zero p q
        generalize 1 + d * p.x * q.x * p.y * q.y = e at *
        generalize 1 - d * p.x * q.x * p.y * q.y = f at *
        field_simp
        linear_combination h }

theorem add_x : (p + q).x * (1 + d * p.x * q.x * p.y * q.y) = p.x * q.y + q.x * p.y :=
  div_mul_cancel₀ _ (one_add_ne_zero p q)

theorem add_y : (p + q).y * (1 - d * p.x * q.x * p.y * q.y) = p.y * q.y + p.x * q.x :=
  div_mul_cancel₀ _ (one_sub_ne_zero p q)

/-! ## The other form -/

variable {p q}

theorem x_eq_zero_iff : p.x = 0 ↔ p.y = 1 ∨ p.y = -1 := by
  have hp := p.onCurve
  rw [← sq_eq_one_iff]
  constructor
  · intro hx
    linear_combination hp + p.x * (1 + d * p.y ^ 2) * hx
  · intro hy
    have hd : 1 + d ≠ 0 := fun h => absurd d_mul (by
      rw [show d = -1 by linear_combination h]
      decide)
    have : (1 + d) * p.x ^ 2 = 0 := by linear_combination -hp + (1 - d * p.x ^ 2) * hy
    exact pow_eq_zero_iff (by decide) |>.mp ((mul_eq_zero.mp this).resolve_left hd)

theorem equation (h : p.y ≠ 1) : (scale * ((1 + p.y) / (1 - p.y)) / p.x) ^ 2 =
    ((1 + p.y) / (1 - p.y)) ^ 3 + 486662 * ((1 + p.y) / (1 - p.y)) ^ 2 + (1 + p.y) / (1 - p.y) := by
  have hy : 1 - p.y ≠ 0 := sub_ne_zero.mpr h.symm
  by_cases hx : p.x = 0
  · have hy' := (x_eq_zero_iff.mp hx).resolve_left h
    rw [hy']
    ring
  · have hp := p.onCurve
    have hs := scale_sq
    have hd := d_mul
    field_simp
    linear_combination (1 + p.y) * ((1 - p.y ^ 2) * hs + 486664 * hp + 4 * p.x ^ 2 * p.y ^ 2 * hd)

/-- The point in the other form. -/
def toPoint (p : Edwards) : Point :=
  if h : p.y = 1 then 0
  else .of ((1 + p.y) / (1 - p.y)) (scale * ((1 + p.y) / (1 - p.y)) / p.x) (equation h)

theorem toPoint_eq_zero_iff : p.toPoint = 0 ↔ p = 0 := by
  constructor
  · intro h
    rw [toPoint] at h
    split at h
    · next hy => exact Edwards.ext (x_eq_zero_iff.mpr (.inl hy)) hy
    · exact absurd h (Point.of_ne_zero _)
  · rintro rfl
    exact dif_pos rfl

@[simp] theorem toPoint_zero : (0 : Edwards).toPoint = 0 := toPoint_eq_zero_iff.mpr rfl

/-- How the coordinates of both forms belong together, but at infinity. -/
structure Matches (p : Edwards) (u v : Element) : Prop where
  equation : v ^ 2 = u ^ 3 + 486662 * u ^ 2 + u
  ordinate : p.y * (u + 1) = u - 1
  abscissa : p.x * v = scale * u

namespace Matches

variable {u v u' v' : Element}

theorem y_ne_one (h : p.Matches u v) : p.y ≠ 1 := by
  intro hy
  refine two_ne ?_
  linear_combination h.ordinate - (u + 1) * hy

theorem u_ne (h : p.Matches u v) : u + 1 ≠ 0 := by
  intro hu
  refine two_ne ?_
  linear_combination (1 - p.y) * hu + h.ordinate

theorem ne_zero (h : p.Matches u v) (hx : p.x ≠ 0) : u ≠ 0 ∧ v ≠ 0 := by
  have hu : u ≠ 0 := by
    rintro rfl
    exact hx (x_eq_zero_iff.mpr (.inr (by linear_combination h.ordinate)))
  refine ⟨hu, ?_⟩
  rintro rfl
  exact mul_ne_zero scale_ne_zero hu (by rw [← h.abscissa, mul_zero])

theorem toPoint_eq (h : p.Matches u v) : p.toPoint = .of u v h.equation := by
  have hne : 1 - p.y ≠ 0 := sub_ne_zero.mpr h.y_ne_one.symm
  have hu : (1 + p.y) / (1 - p.y) = u := by
    rw [div_eq_iff hne]
    linear_combination h.ordinate
  rw [toPoint, dif_neg h.y_ne_one, Point.of_inj, hu]
  refine ⟨rfl, ?_⟩
  by_cases hx : p.x = 0
  · -- at the point of order two, the equation of the curve leaves no choice
    have hu0 : u = 0 := by
      have := h.abscissa
      rw [hx, zero_mul] at this
      exact (mul_eq_zero.mp this.symm).resolve_left scale_ne_zero
    have hv : v = 0 := by simpa [hu0] using h.equation
    rw [hu0, hv, mul_zero, zero_div]
  · rw [← h.abscissa, mul_div_cancel_left₀ _ hx]

theorem neg (h : p.Matches u v) : (-p).Matches u (-v) where
  equation := by rw [neg_sq, h.equation]
  ordinate := h.ordinate
  abscissa := by rw [neg_x, neg_mul_neg, h.abscissa]

theorem unique (h : p.Matches u v) (h' : q.Matches u v) : p = q := by
  have hy : p.y = q.y := mul_right_cancel₀ h.u_ne (h.ordinate.trans h'.ordinate.symm)
  refine Edwards.ext ?_ hy
  by_cases hx : p.x = 0
  · rw [hx]
    exact (x_eq_zero_iff.mpr (hy ▸ x_eq_zero_iff.mp hx)).symm
  · exact mul_right_cancel₀ (h.ne_zero hx).2 (h.abscissa.trans h'.abscissa.symm)

end Matches

/-- Every point but the one at infinity has coordinates in the other form. -/
theorem exists_matches (h : p ≠ 0) : ∃ u v, p.Matches u v := by
  have hy : p.y ≠ 1 := fun hy => h (Edwards.ext (x_eq_zero_iff.mpr (.inl hy)) hy)
  have hne : 1 - p.y ≠ 0 := sub_ne_zero.mpr hy.symm
  refine ⟨_, _, equation hy, ?_, ?_⟩
  · field_simp
    ring
  · by_cases hx : p.x = 0
    · rw [(x_eq_zero_iff.mp hx).resolve_left hy]
      simp
    · field_simp

theorem toPoint_injective : Function.Injective toPoint := by
  intro p q h
  by_cases hq : q = 0
  · rw [hq, toPoint_zero, toPoint_eq_zero_iff] at h
    rw [h, hq]
  have hp : p ≠ 0 := fun hp => hq (toPoint_eq_zero_iff.mp (by rw [← h, hp, toPoint_zero]))
  obtain ⟨u, v, hp⟩ := exists_matches hp
  obtain ⟨u', v', hq⟩ := exists_matches hq
  obtain ⟨rfl, rfl⟩ := Point.of_inj.mp (hp.toPoint_eq.symm.trans (h.trans hq.toPoint_eq))
  exact hp.unique hq

@[simp] theorem toPoint_neg : (-p).toPoint = -p.toPoint := by
  by_cases hp : p = 0
  · rw [hp, toPoint_zero, neg_zero, toPoint_eq_zero_iff]
    exact Edwards.ext neg_zero rfl
  · obtain ⟨u, v, h⟩ := exists_matches hp
    rw [h.toPoint_eq, h.neg.toPoint_eq, Point.neg_of]

/-! ## Sums -/

theorem add_comm' : p + q = q + p := by
  refine Edwards.ext ?_ ?_
  · refine mul_right_cancel₀ (one_add_ne_zero p q) ?_
    rw [add_x, show d * p.x * q.x * p.y * q.y = d * q.x * p.x * q.y * p.y by ring, add_x]
    ring
  · refine mul_right_cancel₀ (one_sub_ne_zero p q) ?_
    rw [add_y, show d * p.x * q.x * p.y * q.y = d * q.x * p.x * q.y * p.y by ring, add_y]
    ring

@[simp] theorem zero_add' : 0 + q = q := by
  refine Edwards.ext ?_ ?_
  · simpa using add_x 0 q
  · simpa using add_y 0 q

theorem add_neg' : p + -p = 0 := by
  have hp := p.onCurve
  refine Edwards.ext ?_ ?_
  · refine mul_right_cancel₀ (one_add_ne_zero p (-p)) ?_
    rw [add_x]
    simp
  · refine mul_right_cancel₀ (one_sub_ne_zero p (-p)) ?_
    rw [add_y]
    simp
    linear_combination hp

namespace Matches

variable {u v u' v' : Element}

theorem denominator_mul (h : p.Matches u v) (h' : q.Matches u' v') :
    d * p.x * q.x * p.y * q.y * (v * v' * (u + 1) * (u' + 1)) =
      486660 * u * u' * (u - 1) * (u' - 1) := by
  rw [show d * p.x * q.x * p.y * q.y * (v * v' * (u + 1) * (u' + 1)) =
    d * (p.x * v) * (q.x * v') * (p.y * (u + 1)) * (q.y * (u' + 1)) by ring, h.abscissa, h'.abscissa,
    h.ordinate, h'.ordinate, ← d_mul_scale_sq]
  ring

theorem add_x_mul (h : p.Matches u v) (h' : q.Matches u' v') :
    (p + q).x * (v * v' * (u + 1) * (u' + 1) + 486660 * u * u' * (u - 1) * (u' - 1)) =
      scale * (u * (u' - 1) * (u + 1) * v' + u' * (u - 1) * (u' + 1) * v) := by
  rw [← h.denominator_mul h', ← one_add_mul, ← mul_assoc, add_x,
    show (p.x * q.y + q.x * p.y) * (v * v' * (u + 1) * (u' + 1)) =
      (p.x * v) * (q.y * (u' + 1)) * (v' * (u + 1)) + (q.x * v') * (p.y * (u + 1)) * (v * (u' + 1)) by ring,
    h.abscissa, h'.abscissa, h.ordinate, h'.ordinate]
  ring

theorem add_y_mul (h : p.Matches u v) (h' : q.Matches u' v') :
    (p + q).y * (v * v' * (u + 1) * (u' + 1) - 486660 * u * u' * (u - 1) * (u' - 1)) =
      v * v' * (u - 1) * (u' - 1) - 486664 * u * u' * (u + 1) * (u' + 1) := by
  rw [← h.denominator_mul h', ← one_sub_mul, ← mul_assoc, add_y,
    show (p.y * q.y + p.x * q.x) * (v * v' * (u + 1) * (u' + 1)) =
      (p.y * (u + 1)) * (q.y * (u' + 1)) * (v * v') + (p.x * v) * (q.x * v') * ((u + 1) * (u' + 1)) by ring,
    h.abscissa, h'.abscissa, h.ordinate, h'.ordinate]
  linear_combination u * u' * (u + 1) * (u' + 1) * scale_sq

theorem add_x_ne (h : p.Matches u v) (h' : q.Matches u' v') (hv : v ≠ 0) (hv' : v' ≠ 0) :
    v * v' * (u + 1) * (u' + 1) + 486660 * u * u' * (u - 1) * (u' - 1) ≠ 0 := by
  rw [← h.denominator_mul h', ← one_add_mul]
  exact mul_ne_zero (one_add_ne_zero p q)
    (mul_ne_zero (mul_ne_zero (mul_ne_zero hv hv') h.u_ne) h'.u_ne)

theorem add_y_ne (h : p.Matches u v) (h' : q.Matches u' v') (hv : v ≠ 0) (hv' : v' ≠ 0) :
    v * v' * (u + 1) * (u' + 1) - 486660 * u * u' * (u - 1) * (u' - 1) ≠ 0 := by
  rw [← h.denominator_mul h', ← one_sub_mul]
  exact mul_ne_zero (one_sub_ne_zero p q)
    (mul_ne_zero (mul_ne_zero (mul_ne_zero hv hv') h.u_ne) h'.u_ne)

theorem exists_add (h : p.Matches u v) (h' : q.Matches u' v') (hne : u ≠ u') : ∃ u₃ v₃ h₃,
    p.toPoint + q.toPoint = .of u₃ v₃ h₃ ∧
      u₃ * (u - u') ^ 2 = (u + u') * (u * u' + 1) + 2 * 486662 * u * u' - 2 * v * v' ∧
      v₃ * (u - u') ^ 3 =
        (u * (u - u') ^ 2 - ((u + u') * (u * u' + 1) + 2 * 486662 * u * u') -
          2 * (u' ^ 3 + 486662 * u' ^ 2 + u') - (u - u') ^ 3) * v +
        (2 * (u ^ 3 + 486662 * u ^ 2 + u) + ((u + u') * (u * u' + 1) + 2 * 486662 * u * u') -
          u * (u - u') ^ 2) * v' := by
  have e := h.equation
  have e' := h'.equation
  obtain ⟨l, hl⟩ : ∃ l, l * (u - u') = v - v' := ⟨_, div_mul_cancel₀ _ (sub_ne_zero.mpr hne)⟩
  obtain ⟨h₃, hsum⟩ := Point.of_add_of e e' hne hl rfl rfl
  have hu₃ : (l ^ 2 - 486662 - u - u') * (u - u') ^ 2 =
      (u + u') * (u * u' + 1) + 2 * 486662 * u * u' - 2 * v * v' := by
    linear_combination (l * (u - u') + v - v') * hl + e + e'
  rw [h.toPoint_eq, h'.toPoint_eq]
  refine ⟨_, _, h₃, hsum, hu₃, ?_⟩
  linear_combination (u - (l ^ 2 - 486662 - u - u')) * (u - u') ^ 2 * hl - (v - v') * hu₃ +
    2 * v' * e - 2 * v * e'

theorem add (h : p.Matches u v) (h' : q.Matches u' v') (hv : v ≠ 0) (hv' : v' ≠ 0) (hne : u ≠ u') :
    (p + q).toPoint = p.toPoint + q.toPoint := by
  have hsub : u - u' ≠ 0 := sub_ne_zero.mpr hne
  have e := h.equation
  have e' := h'.equation
  obtain ⟨u₃, v₃, h₃, hsum, hu₃, hv₃⟩ := h.exists_add h' hne
  rw [hsum]
  refine Matches.toPoint_eq ⟨h₃, ?_, ?_⟩
  · refine mul_right_cancel₀ (mul_ne_zero (h.add_y_ne h' hv hv') (pow_ne_zero 2 hsub)) ?_
    have hy := h.add_y_mul h'
    generalize (p + q).y = y at hy
    linear_combination (u₃ + 1) * (u - u') ^ 2 * hy +
      ((v * v' * (u - 1) * (u' - 1) - 486664 * u * u' * (u + 1) * (u' + 1)) -
        (v * v' * (u + 1) * (u' + 1) - 486660 * u * u' * (u - 1) * (u' - 1))) * hu₃ +
      4 * (u + u') * (v' ^ 2 * e + (u ^ 3 + 486662 * u ^ 2 + u) * e')
  · refine mul_right_cancel₀ (mul_ne_zero (h.add_x_ne h' hv hv') (pow_ne_zero 3 hsub)) ?_
    have hx := h.add_x_mul h'
    generalize (p + q).x = x at hx
    linear_combination v₃ * (u - u') ^ 3 * hx +
      scale * (u * (u' - 1) * (u + 1) * v' + u' * (u - 1) * (u' + 1) * v) * hv₃ -
      scale * (v * v' * (u + 1) * (u' + 1) + 486660 * u * u' * (u - 1) * (u' - 1)) * (u - u') * hu₃ +
      scale * (u' * (u - 1) * (u' + 1) *
          (u * (u - u') ^ 2 - ((u + u') * (u * u' + 1) + 2 * 486662 * u * u') -
            2 * (u' ^ 3 + 486662 * u' ^ 2 + u') - (u - u') ^ 3) * e +
        u * (u' - 1) * (u + 1) *
          (2 * (u ^ 3 + 486662 * u ^ 2 + u) + ((u + u') * (u * u' + 1) + 2 * 486662 * u * u') -
            u * (u - u') ^ 2) * e' +
        2 * (u + 1) * (u' + 1) * (u - u') * (v' ^ 2 * e + (u ^ 3 + 486662 * u ^ 2 + u) * e'))

theorem add_self (h : p.Matches u v) (hv : v ≠ 0) : (p + p).toPoint = p.toPoint + p.toPoint := by
  have h2v : 2 * v ≠ 0 := mul_ne_zero two_ne hv
  have e := h.equation
  obtain ⟨l, hl⟩ : ∃ l, l * (2 * v) = 3 * u ^ 2 + 2 * 486662 * u + 1 := ⟨_, div_mul_cancel₀ _ h2v⟩
  obtain ⟨h₃, hsum⟩ := Point.of_add_self e hv hl rfl rfl
  have hu₃ : (l ^ 2 - 486662 - u - u) * (2 * v) ^ 2 = (u ^ 2 - 1) ^ 2 := by
    linear_combination (l * (2 * v) + (3 * u ^ 2 + 2 * 486662 * u + 1)) * hl -
      4 * (486662 + 2 * u) * e
  have hv₃ : (l * (u - (l ^ 2 - 486662 - u - u)) - v) * (2 * v) ^ 3 =
      (3 * u ^ 2 + 2 * 486662 * u + 1) * (4 * u * (u ^ 3 + 486662 * u ^ 2 + u) - (u ^ 2 - 1) ^ 2) -
        8 * (u ^ 3 + 486662 * u ^ 2 + u) ^ 2 := by
    linear_combination (u - (l ^ 2 - 486662 - u - u)) * (2 * v) ^ 2 * hl -
      (3 * u ^ 2 + 2 * 486662 * u + 1) * hu₃ + 4 * u * (3 * u ^ 2 + 2 * 486662 * u + 1) * e -
      8 * (v ^ 2 + (u ^ 3 + 486662 * u ^ 2 + u)) * e
  rw [h.toPoint_eq, hsum]
  generalize l ^ 2 - 486662 - u - u = u₃ at *
  generalize l * (u - u₃) - v = v₃ at *
  refine Matches.toPoint_eq ⟨h₃, ?_, ?_⟩
  · refine mul_right_cancel₀ (mul_ne_zero (h.add_y_ne h hv hv) (pow_ne_zero 2 h2v)) ?_
    have hy := h.add_y_mul h
    generalize (p + p).y = y at hy
    linear_combination (u₃ + 1) * (2 * v) ^ 2 * hy +
      ((v * v * (u - 1) * (u - 1) - 486664 * u * u * (u + 1) * (u + 1)) -
        (v * v * (u + 1) * (u + 1) - 486660 * u * u * (u - 1) * (u - 1))) * hu₃ +
      (8 * (u ^ 2 + 1) * (v ^ 2 + (u ^ 3 + 486662 * u ^ 2 + u)) -
        4 * (486664 * u ^ 2 * (u + 1) ^ 2 + 486660 * u ^ 2 * (u - 1) ^ 2) -
        4 * u * (u ^ 2 - 1) ^ 2) * e
  · refine mul_right_cancel₀ (mul_ne_zero (h.add_x_ne h hv hv) (pow_ne_zero 3 h2v)) ?_
    have hx := h.add_x_mul h
    generalize (p + p).x = x at hx
    linear_combination v₃ * (2 * v) ^ 3 * hx +
      scale * (u * (u - 1) * (u + 1) * v + u * (u - 1) * (u + 1) * v) * hv₃ -
      scale * (v * v * (u + 1) * (u + 1) + 486660 * u * u * (u - 1) * (u - 1)) * (2 * v) * hu₃ -
      scale * (2 * v) * (u ^ 2 - 1) ^ 2 * (u + 1) ^ 2 * e

theorem eq_zero (h : p.Matches u v) (hx : p.x = 0) : p.y = -1 ∧ u = 0 ∧ v = 0 := by
  have hy : p.y = -1 := (x_eq_zero_iff.mp hx).resolve_left h.y_ne_one
  have hu : u = 0 := by
    refine (mul_eq_zero.mp (?_ : 2 * u = 0)).resolve_left two_ne
    linear_combination -h.ordinate + (u + 1) * hy
  exact ⟨hy, hu, by simpa [hu] using h.equation⟩

theorem two_add (h : p.Matches u v) (hx : p.x = 0) (h' : q.Matches u' v') :
    (p + q).toPoint = p.toPoint + q.toPoint := by
  obtain ⟨hy, rfl, rfl⟩ := h.eq_zero hx
  have hsumx : (p + q).x = -q.x := by simpa [hx, hy] using add_x p q
  have hsumy : (p + q).y = -q.y := by simpa [hx, hy] using add_y p q
  by_cases hx' : q.x = 0
  · obtain ⟨hy', rfl, rfl⟩ := h'.eq_zero hx'
    have hzero : p + q = 0 := Edwards.ext (by rw [hsumx, hx', neg_zero, zero_x])
      (by rw [hsumy, hy', neg_neg, zero_y])
    rw [hzero, toPoint_zero, h.unique h', h'.toPoint_eq, Point.of_zero_add_self]
  · obtain ⟨hu', -⟩ := h'.ne_zero hx'
    obtain ⟨l, hl⟩ : ∃ l, l * u' = v' := ⟨_, div_mul_cancel₀ _ hu'⟩
    obtain ⟨h₃, hsum⟩ := Point.of_add_of h.equation h'.equation (l := l) (Ne.symm hu')
      (by linear_combination -hl) rfl rfl
    have hu₃ : (l ^ 2 - 486662 - 0 - u') * u' = 1 := by
      refine mul_right_cancel₀ hu' ?_
      linear_combination (l * u' + v') * hl + h'.equation
    rw [h.toPoint_eq, h'.toPoint_eq, hsum]
    refine Matches.toPoint_eq ⟨h₃, ?_, ?_⟩
    · refine mul_right_cancel₀ hu' ?_
      rw [hsumy]
      linear_combination (-q.y - 1) * hu₃ - h'.ordinate
    · rw [hsumx]
      refine mul_right_cancel₀ hu' ?_
      linear_combination q.x * (l ^ 2 - 486662 - 0 - u') * hl + (l ^ 2 - 486662 - 0 - u') * h'.abscissa

end Matches

/-- Sums are those of the group. -/
theorem toPoint_add (p q : Edwards) : (p + q).toPoint = p.toPoint + q.toPoint := by
  by_cases hp : p = 0
  · rw [hp, zero_add', toPoint_zero, zero_add]
  by_cases hq : q = 0
  · rw [hq, add_comm', zero_add', toPoint_zero, add_zero]
  obtain ⟨u, v, hp⟩ := exists_matches hp
  obtain ⟨u', v', hq⟩ := exists_matches hq
  by_cases hx : p.x = 0
  · exact hp.two_add hx hq
  by_cases hx' : q.x = 0
  · rw [add_comm', add_comm, hq.two_add hx' hp]
  have hv := (hp.ne_zero hx).2
  by_cases hu : u = u'
  · subst hu
    rcases sq_eq_sq_iff_eq_or_eq_neg.mp (hq.equation.trans hp.equation.symm) with rfl | rfl
    · rw [← hp.unique hq]
      exact hp.add_self hv
    · rw [← hp.neg.unique hq, add_neg', toPoint_neg, add_neg_cancel, toPoint_zero]
  · exact hp.add hq hv (hq.ne_zero hx').2 hu

end Edwards

end OpenPGP.Crypto
