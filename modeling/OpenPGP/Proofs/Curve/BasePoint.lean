import Mathlib.GroupTheory.OrderOfElement
import OpenPGP.Proofs.Curve.Montgomery
/-!
# The base point

The multiples of the base point form a group of prime order. A secret scalar is no
multiple of the order, nor is a product of them.

Results:
* `Curve25519.nsmul_base_eq_zero_iff`: the order of the base point.
* `Field25519.not_order_dvd_clamp`: secret scalars.
-/
namespace OpenPGP.Crypto

open Field25519

/-! ## The order -/

namespace Curve25519

/-- The base point, with `u = 9`. -/
def base : Point :=
  .of 9 14781619447589544791020593568409986887264606134616475288964881837755586237401 (by decide +kernel)

theorem base_ne_zero : base ≠ 0 := Point.of_ne_zero _

theorem abscissa_base : base.abscissa = (9 : Nat) := rfl

theorem order_nsmul_base : Ed25519.order • base = 0 := by
  have hstart : X25519.Ladder.Holds ⟨1, 0, 9, 1⟩ (0 • base) ((0 + 1) • base) := by
    rw [zero_nsmul, zero_add, one_nsmul]
    exact ⟨represents_zero.mpr (by simp), represents_of.mpr (by simp)⟩
  have hend := (hstart.ladder abscissa_base (by decide) Ed25519.order 255).first
  rw [zero_mul, zero_add, Nat.mod_eq_of_lt (show Ed25519.order < 2 ^ 255 by decide)] at hend
  have hz : (X25519.ladder 9 Ed25519.order 255 ⟨1, 0, 9, 1⟩).z2 = 0 := by decide +kernel
  obtain ⟨h, -⟩ | ⟨u, v, h, -, hne, -⟩ := hend
  · exact h
  · rw [hz] at hne
    exact absurd Nat.cast_zero hne

/-- The multiples of the base point that are at infinity. -/
theorem nsmul_base_eq_zero_iff {n : Nat} : n • base = 0 ↔ Ed25519.order ∣ n := by
  have : Fact Ed25519.order.Prime := ⟨Ed25519.order_prime⟩
  rw [← addOrderOf_eq_prime order_nsmul_base base_ne_zero, addOrderOf_dvd_iff_nsmul_eq_zero]

/-- No multiple of the base point but the one at infinity is its own opposite. -/
theorem abscissa_nsmul_base_ne_zero {n : Nat} (h : ¬Ed25519.order ∣ n) : (n • base).abscissa ≠ 0 := by
  intro h0
  have hdouble : (2 * n) • base = 0 := by
    rw [two_mul, add_nsmul]
    generalize n • base = p at h0
    induction p using Point.cases with
    | zero => exact add_zero 0
    | of u v hp =>
      obtain rfl : u = 0 := h0
      obtain rfl : v = 0 := by simpa using hp
      exact Point.of_zero_add_self
  rcases (Nat.Prime.dvd_mul Ed25519.order_prime).mp (nsmul_base_eq_zero_iff.mp hdouble) with h2 | hn
  · exact absurd (Nat.le_of_dvd Nat.two_pos h2) (by decide)
  · exact h hn

end Curve25519

/-! ## Secret scalars -/

namespace Field25519

theorem clamp_lt (octets : Octets) : clamp octets < 2 ^ 255 := by
  have : Octets.ofLittleEndian octets % (1 <<< 254) < 2 ^ 254 := Nat.mod_lt _ (by decide)
  simp only [clamp, show 1 <<< 254 = 2 ^ 254 by decide] at *
  omega

theorem not_order_dvd_clamp (octets : Octets) : ¬Ed25519.order ∣ clamp octets := by
  obtain ⟨m, hm, hlow, hhigh⟩ : ∃ m, clamp octets = 8 * m ∧ 0 < m ∧ m < Ed25519.order := by
    have h := clamp_lt octets
    have horder : 2 ^ 252 < Ed25519.order := by decide
    have hlow : 1 <<< 254 ≤ clamp octets := Nat.le_add_right _ _
    have hmod : clamp octets % 8 = 0 := by
      simp only [clamp, show 1 <<< 254 = 8 * 2 ^ 251 by decide]
      omega
    refine ⟨clamp octets / 8, ?_, ?_, ?_⟩ <;> omega
  rw [hm]
  intro hd
  rcases (Nat.Prime.dvd_mul Ed25519.order_prime).mp hd with h8 | hd
  · exact absurd (Nat.le_of_dvd (by decide) h8) (by decide)
  · exact absurd (Nat.le_of_dvd hlow hd) (by omega)

end Field25519

end OpenPGP.Crypto
