import Mathlib.NumberTheory.LegendreSymbol.Basic
import OpenPGP.Proofs.Curve.Primes
/-!
# The field of the curve

What is computed with numbers below the prime is computed in a field: sums,
differences, products, powers and inverses are those of the residues. A root of a
ratio is found whenever there is one.

Results:
* `cast_add`, `cast_sub`, `cast_mul`, `cast_pow`, `cast_inverse`: the operations.
* `rootOfRatio?_of_mul_sq`: the root that is found is the even one.
-/
namespace OpenPGP.Crypto.Field25519

/-- The field of the curve. -/
abbrev Element : Type := ZMod prime

instance : Fact prime.Prime := ⟨prime_prime⟩

theorem cast_inj {a b : Nat} (ha : a < prime) (hb : b < prime) : (a : Element) = b ↔ a = b := by
  rw [ZMod.natCast_eq_natCast_iff', Nat.mod_eq_of_lt ha, Nat.mod_eq_of_lt hb]

@[simp] theorem cast_prime : ((prime : Nat) : Element) = 0 := ZMod.natCast_self prime

theorem prime_pos : 0 < prime := by decide

/-! ## Operations -/

theorem add_lt (a b : Nat) : add a b < prime := Nat.mod_lt _ prime_pos

theorem sub_lt (a b : Nat) : sub a b < prime := Nat.mod_lt _ prime_pos

theorem mul_lt (a b : Nat) : mul a b < prime := Nat.mod_lt _ prime_pos

@[simp] theorem cast_add (a b : Nat) : ((add a b : Nat) : Element) = a + b := by
  rw [add, ZMod.natCast_mod, Nat.cast_add]

@[simp] theorem cast_sub (a b : Nat) : ((sub a b : Nat) : Element) = a - b := by
  rw [sub, ZMod.natCast_mod, Nat.cast_add, Nat.cast_sub (Nat.mod_lt b prime_pos).le, ZMod.natCast_mod,
    cast_prime]
  ring

@[simp] theorem cast_mul (a b : Nat) : ((mul a b : Nat) : Element) = a * b := by
  rw [mul, ZMod.natCast_mod, Nat.cast_mul]

@[simp] theorem cast_pow (a e : Nat) : ((pow a e : Nat) : Element) = (a : Element) ^ e := by
  fun_induction pow a e with
  | case1 a => rw [Nat.cast_one, pow_zero]
  | case2 a e h half heven ih =>
    rw [ih, cast_mul, ← pow_two, ← pow_mul, Nat.mul_div_cancel' (by omega)]
  | case3 a e h half hodd ih =>
    rw [cast_mul, ih, cast_mul, ← pow_two, ← pow_mul, ← pow_succ, show 2 * (e / 2) + 1 = e by omega]

@[simp] theorem cast_inverse (a : Nat) : ((inverse a : Nat) : Element) = (a : Element)⁻¹ := by
  rw [inverse, cast_pow]
  by_cases ha : (a : Element) = 0
  · rw [ha, inv_zero, zero_pow (by decide)]
  · refine eq_inv_of_mul_eq_one_left ?_
    rw [← pow_succ, show prime - 2 + 1 = prime - 1 by decide]
    exact ZMod.pow_card_sub_one_eq_one ha

/-! ## Roots -/

theorem two_ne : (2 : Element) ≠ 0 := by decide

theorem neg_ne_self {a : Element} (h : a ≠ 0) : -a ≠ a := by
  intro he
  have : 2 * a = 0 := by linear_combination -he
  exact h ((mul_eq_zero.mp this).resolve_left two_ne)

/-- Powers that are small enough can be computed. -/
theorem cast_pow_eq (a : Nat) {e : Nat} (he : e < 2 ^ 256) :
    (a : Element) ^ e = (powMod prime 256 a e : Nat) := by
  rw [powMod_eq prime he, ZMod.natCast_mod, Nat.cast_pow]

@[simp] theorem rootOfMinusOne_sq : ((rootOfMinusOne : Nat) : Element) ^ 2 = -1 := by
  rw [rootOfMinusOne, cast_pow, ← pow_mul, cast_pow_eq 2 (by decide),
    show powMod prime 256 2 ((prime - 1) / 4 * 2) = prime - 1 by decide +kernel,
    Nat.cast_sub prime_pos, cast_prime, Nat.cast_one, zero_sub]

theorem even_or_neg {r : Nat} (hr : r < prime) :
    ∃ e, (if r % 2 = 0 then r else sub 0 r) = e ∧ e < prime ∧ e % 2 = 0 ∧
      ((e : Element) = r ∨ (e : Element) = -r) := by
  refine ⟨_, rfl, ?_⟩
  split
  · next heven => exact ⟨hr, heven, .inl rfl⟩
  · next hodd =>
    refine ⟨sub_lt 0 r, ?_, .inr (by rw [cast_sub, Nat.cast_zero, zero_sub])⟩
    rw [sub, Nat.zero_add, Nat.mod_eq_of_lt hr, Nat.mod_eq_of_lt (show prime - r < prime by omega)]
    have : prime % 2 = 1 := by decide
    omega

/-- The power that a root is made of is one up to the sign of its square. -/
theorem mul_sq_of_power {u v x root : Element} (hv : v ≠ 0) (h : v * x ^ 2 = u)
    (hr : root = u * v ^ 3 * (u * v ^ 7) ^ ((prime - 5) / 8)) :
    v * root ^ 2 = u ∨ v * root ^ 2 = -u := by
  have hexp : (u * v ^ 7) ^ ((prime - 5) / 8) * (u * v ^ 7) ^ ((prime - 5) / 8) * (u * v ^ 7) =
      (x * v ^ 4) ^ (prime / 2) := by
    rw [← h, show v * x ^ 2 * v ^ 7 = (x * v ^ 4) ^ 2 by ring, ← pow_mul, ← pow_add, ← pow_add]
    rfl
  have hpower : v * root ^ 2 = u * (x * v ^ 4) ^ (prime / 2) := by
    rw [← hexp, hr]
    ring
  by_cases hx : x = 0
  · exact .inl (by rw [hpower, ← h, hx]; ring)
  · rcases ZMod.pow_div_two_eq_neg_one_or_one prime (mul_ne_zero hx (pow_ne_zero 4 hv)) with hp | hp
    · exact .inl (by rw [hpower, hp, mul_one])
    · exact .inr (by rw [hpower, hp, mul_neg_one])

/-- Where a ratio has a root, the even root is found. -/
theorem rootOfRatio?_of_mul_sq {u v : Nat} {x : Element} (hv : (v : Element) ≠ 0)
    (h : (v : Element) * x ^ 2 = u) :
    ∃ r, rootOfRatio? u v = some r ∧ r < prime ∧ r % 2 = 0 ∧ ((r : Element) = x ∨ (r : Element) = -x) := by
  have hroots {r : Nat} (hr : (v : Element) * r ^ 2 = u) : (r : Element) = x ∨ (r : Element) = -x :=
    sq_eq_sq_iff_eq_or_eq_neg.mp (mul_left_cancel₀ hv (hr.trans h.symm))
  simp only [rootOfRatio?]
  generalize hroot : mul (mul u (mul (mul v v) v)) (pow (mul u (mul (mul (mul (mul v v) v) (mul (mul v v) v)) v))
    ((prime - 5) / 8)) = root
  have hsquare : ((mul v (mul root root) : Nat) : Element) = v * root ^ 2 := by
    rw [cast_mul, cast_mul, pow_two]
  have hsign : (v : Element) * root ^ 2 = u ∨ (v : Element) * root ^ 2 = -u := by
    refine mul_sq_of_power hv h ?_
    rw [← hroot]
    simp only [cast_mul, cast_pow]
    ring
  have htest : mul v (mul root root) = u % prime ↔ (v : Element) * root ^ 2 = u := by
    rw [← hsquare, ← cast_inj (mul_lt _ _) (Nat.mod_lt u prime_pos), ZMod.natCast_mod]
  by_cases hu : mul v (mul root root) = u % prime
  · obtain ⟨e, he, hlt, heven, hsame⟩ := even_or_neg (r := root) (hroot ▸ mul_lt _ _)
    refine ⟨e, by rw [if_pos hu, he], hlt, heven, hroots ?_⟩
    rw [← htest.mp hu]
    rcases hsame with hs | hs
    · rw [hs]
    · rw [hs, neg_sq]
  · have hneg := hsign.resolve_left (htest.not.mp hu)
    have hu' : mul v (mul root root) = sub 0 u := by
      rw [← cast_inj (mul_lt _ _) (sub_lt _ _), hsquare, hneg, cast_sub, Nat.cast_zero, zero_sub]
    obtain ⟨e, he, hlt, heven, hsame⟩ := even_or_neg (r := mul root rootOfMinusOne) (mul_lt _ _)
    refine ⟨e, by rw [if_neg hu, if_pos hu', he], hlt, heven, hroots ?_⟩
    have hprod : (v : Element) * (root * rootOfMinusOne) ^ 2 = u := by
      rw [mul_pow, rootOfMinusOne_sq]
      linear_combination -hneg
    rcases hsame with hs | hs
    · rw [hs, cast_mul, hprod]
    · rw [hs, cast_mul, neg_sq, hprod]

end OpenPGP.Crypto.Field25519
