import OpenPGP.Proofs.Curve.Edwards
/-!
# The signing equation

Points in extended coordinates stand for points of the group of the curve, and what is
computed with them is computed in the group. A point is read back from its octets. So a
signature satisfies the equation it is checked by; the strict checks ask that its
one-time scalar is not zero, which a scalar that is made by a hash may be.

Results:
* `Point.StandsFor.add`, `Point.StandsFor.multiply`: computing with points.
* `Point.StandsFor.octets`: points are read back.
* `verify_sign_iff`: signatures are valid.
-/
namespace OpenPGP.Crypto.Ed25519

open Field25519

/-- The one-time scalar of a signature. -/
def nonce (seed : Octets.Sized 32) (digest : Octets) : Nat :=
  challenge ((HashFunction.hash .sha512 seed.val).drop 32 ++ digest)

namespace Point

/-! ## Extended coordinates -/

/-- Whether extended coordinates are those of a point. -/
structure Extends (p : Point) (e : Edwards) : Prop where
  z : (p.z : Element) ≠ 0
  x : (p.x : Element) = e.x * p.z
  y : (p.y : Element) = e.y * p.z
  t : (p.t : Element) = e.x * e.y * p.z

namespace Extends

variable {p q : Point} {e f : Edwards}

theorem identity : Point.identity.Extends 0 := by
  constructor <;> simp [Point.identity]

theorem neg (h : p.Extends e) : p.neg.Extends (-e) where
  z := h.z
  x := by simp [Point.neg, h.x]
  y := by simp [Point.neg, h.y]
  t := by simp [Point.neg, h.t]

theorem add (hp : p.Extends e) (hq : q.Extends f) : (p.add q).Extends (e + f) := by
  have hx := Edwards.add_x e f
  have hy := Edwards.add_y e f
  have hz : (2 : Element) * p.z * q.z ≠ 0 := mul_ne_zero (mul_ne_zero two_ne hp.z) hq.z
  constructor
  all_goals
    simp only [Point.add, cast_mul, cast_sub, Field25519.cast_add, hp.x, hp.y, hp.t, hq.x, hq.y, hq.t,
      Nat.cast_ofNat]
  · have h : ((2 : Element) * p.z * q.z * (1 - Edwards.d * e.x * f.x * e.y * f.y)) *
        (2 * p.z * q.z * (1 + Edwards.d * e.x * f.x * e.y * f.y)) ≠ 0 :=
      mul_ne_zero (mul_ne_zero hz (Edwards.one_sub_ne_zero e f))
        (mul_ne_zero hz (Edwards.one_add_ne_zero e f))
    convert h using 1
    ring
  · linear_combination -((2 * p.z * q.z) ^ 2 * (1 - Edwards.d * e.x * f.x * e.y * f.y)) * hx
  · linear_combination -((2 * p.z * q.z) ^ 2 * (1 + Edwards.d * e.x * f.x * e.y * f.y)) * hy
  · linear_combination -((2 * p.z * q.z) ^ 2) * ((e.y * f.y + e.x * f.x) * hx +
      (e + f).x * (1 + Edwards.d * e.x * f.x * e.y * f.y) * hy)

theorem same_iff (hp : p.Extends e) (hq : q.Extends f) : p.same q = true ↔ e = f := by
  have hcast (a b c d : Nat) : mul a b = mul c d ↔ (a : Element) * b = c * d := by
    rw [← cast_inj (mul_lt _ _) (mul_lt _ _), cast_mul, cast_mul]
  have hz : (p.z : Element) * q.z ≠ 0 := mul_ne_zero hp.z hq.z
  simp only [same, Bool.and_eq_true, decide_eq_true_eq, hcast, hp.x, hp.y, hq.x, hq.y]
  constructor
  · rintro ⟨hx, hy⟩
    refine Edwards.ext (mul_right_cancel₀ hz ?_) (mul_right_cancel₀ hz ?_)
    · linear_combination hx
    · linear_combination hy
  · rintro rfl
    exact ⟨by ring, by ring⟩

end Extends

/-! ## Points of the group -/

/-- Whether extended coordinates stand for a point of the group. -/
def StandsFor (p : Point) (g : Curve25519.Point) : Prop := ∃ e, p.Extends e ∧ e.toPoint = g

namespace StandsFor

variable {p q : Point} {g h : Curve25519.Point}

theorem identity : Point.identity.StandsFor 0 := ⟨0, Extends.identity, Edwards.toPoint_zero⟩

theorem neg : p.StandsFor g → p.neg.StandsFor (-g) := by
  rintro ⟨e, he, rfl⟩
  exact ⟨-e, he.neg, Edwards.toPoint_neg⟩

theorem add : p.StandsFor g → q.StandsFor h → (p.add q).StandsFor (g + h) := by
  rintro ⟨e, he, rfl⟩ ⟨f, hf, rfl⟩
  exact ⟨e + f, he.add hf, Edwards.toPoint_add e f⟩

theorem same_iff : p.StandsFor g → q.StandsFor h → (p.same q = true ↔ g = h) := by
  rintro ⟨e, he, rfl⟩ ⟨f, hf, rfl⟩
  rw [he.same_iff hf, Edwards.toPoint_injective.eq_iff]

theorem isSmallOrder_iff (hp : p.StandsFor g) : p.isSmallOrder = true ↔ 8 • g = 0 := by
  have h2 := hp.add hp
  have h4 := h2.add h2
  have h8 := h4.add h4
  rw [show g + g + (g + g) + (g + g + (g + g)) = 8 • g by abel] at h8
  exact h8.same_iff identity

theorem addMultiple {sum : Point} {s : Curve25519.Point} (scalar bits : Nat) (hp : p.StandsFor g)
    (hs : sum.StandsFor s) :
    (addMultiple scalar bits p sum).StandsFor ((scalar % 2 ^ bits) • g + s) := by
  induction bits generalizing scalar p sum g s with
  | zero => simpa [Point.addMultiple, Nat.mod_one] using hs
  | succ bits ih =>
    have hsum : (if scalar % 2 = 1 then sum.add p else sum).StandsFor ((scalar % 2) • g + s) := by
      rcases Nat.mod_two_eq_zero_or_one scalar with hb | hb
      · simpa [hb] using hs
      · simpa [hb, add_comm] using hs.add hp
    have hnext := ih (scalar / 2) (hp.add hp) hsum
    rw [Point.addMultiple]
    convert hnext using 1
    rw [pow_succ', Nat.mod_mul, add_nsmul, mul_nsmul, two_nsmul]
    abel

theorem multiply {scalar : Nat} (hp : p.StandsFor g) (hs : scalar < 2 ^ 256) :
    (p.multiply scalar).StandsFor (scalar • g) := by
  have := hp.addMultiple scalar 256 identity
  rwa [Nat.mod_eq_of_lt hs, add_zero] at this

end StandsFor

/-! ## Octets -/

/-- Of the two roots of a square, the parity of one tells which it is. -/
theorem cast_of_parity {r x : Nat} (hr : r < prime) (hx : x < prime) (heven : r % 2 = 0)
    (h : (r : Element) = x ∨ (r : Element) = -x) :
    ((if x % 2 = 1 then sub 0 r else r : Nat) : Element) = x := by
  have hodd : prime % 2 = 1 := by decide
  split
  · next hx1 =>
    rcases h with h | h
    · rw [cast_inj hr hx] at h
      omega
    · rw [cast_sub, h]
      simp
  · next hx1 =>
    rcases h with h | h
    · exact h
    · have hsum : ((r + x : Nat) : Element) = 0 := by
        rw [Nat.cast_add, h]
        ring
      rw [ZMod.natCast_eq_zero_iff] at hsum
      obtain ⟨k, hk⟩ := hsum
      -- both are even and less than the prime
      obtain rfl : k = 0 := by
        have : k < 2 := by
          by_contra hk2
          have : prime * 2 ≤ prime * k := Nat.mul_le_mul_left _ (by omega)
          omega
        rcases (by omega : k = 0 ∨ k = 1) with rfl | rfl
        · rfl
        · omega
      obtain ⟨rfl, rfl⟩ : r = 0 ∧ x = 0 := by omega
      rfl

theorem exists_ofY? {e : Edwards} {x y : Nat} (hx : x < prime) (hy : y < prime)
    (hex : (x : Element) = e.x) (hey : (y : Element) = e.y) :
    ∃ p, ofY? y (x % 2 = 1) = some p ∧ p.Extends e := by
  have honCurve := e.onCurve
  have hden : ((Field25519.add (mul d (mul y y)) 1 : Nat) : Element) ≠ 0 := by
    rw [Field25519.cast_add, cast_mul, cast_mul, hey, Nat.cast_one]
    intro h0
    have hy0 := Edwards.eq_zero_of_d_mul_sq (a := e.y) (b := (rootOfMinusOne : Nat))
      (by rw [rootOfMinusOne_sq]; linear_combination h0)
    rw [hy0] at h0
    simp at h0
  have hratio : ((Field25519.add (mul d (mul y y)) 1 : Nat) : Element) * e.x ^ 2 =
      ((sub (mul y y) 1 : Nat) : Element) := by
    rw [Field25519.cast_add, cast_mul, cast_sub, cast_mul, hey, Nat.cast_one]
    linear_combination -honCurve
  obtain ⟨r, hr, hlt, heven, hsign⟩ := rootOfRatio?_of_mul_sq hden hratio
  rw [← hex] at hsign
  have hroot := cast_of_parity hlt hx heven hsign
  generalize hx' : (if x % 2 = 1 then sub 0 r else r) = x' at hroot
  refine ⟨⟨x', y, 1, mul x' y⟩, ?_, ?_⟩
  · simp only [ofY?, Nat.mod_eq_of_lt hy, hr, Option.map_some, decide_eq_true_eq, hx']
  · constructor <;> simp [hroot, hex, hey]

theorem ofOctets?_ofNat {x y : Nat} (hy : y < 2 ^ 255) :
    ofOctets? (Octets.Sized.ofNat 32 (y + (x % 2) <<< 255)) = ofY? y (x % 2 = 1) := by
  have hshift : (x % 2) <<< 255 = 2 ^ 255 * (x % 2) := by rw [Nat.shiftLeft_eq, Nat.mul_comm]
  have hn : Octets.ofLittleEndian (Octets.Sized.ofNat 32 (y + (x % 2) <<< 255)).val =
      y + 2 ^ 255 * (x % 2) := by
    rw [Octets.Sized.ofNat, Octets.ofLittleEndian_littleEndian, hshift]
    exact Nat.mod_eq_of_lt (show _ < 2 ^ 256 by omega)
  have hlow : (y + 2 ^ 255 * (x % 2)) % (1 <<< 255) = y := by
    rw [Nat.one_shiftLeft, Nat.add_mul_mod_self_left, Nat.mod_eq_of_lt hy]
  have hhigh : y + 2 ^ 255 * (x % 2) ≥ 1 <<< 255 ↔ x % 2 = 1 := by
    rw [Nat.one_shiftLeft]
    omega
  simp only [ofOctets?, ofOctets, hn, hlow, hhigh]

/-- A point is read back from its octets. -/
theorem StandsFor.octets {p : Point} {g : Curve25519.Point} (h : p.StandsFor g) :
    ∃ q, ofOctets? p.octets = some q ∧ q.StandsFor g := by
  obtain ⟨e, he, rfl⟩ := h
  have hx : ((mul p.x (inverse p.z) : Nat) : Element) = e.x := by
    rw [cast_mul, cast_inverse, he.x, mul_inv_cancel_right₀ he.z]
  have hy : ((mul p.y (inverse p.z) : Nat) : Element) = e.y := by
    rw [cast_mul, cast_inverse, he.y, mul_inv_cancel_right₀ he.z]
  have hylt := mul_lt p.y (inverse p.z)
  obtain ⟨q, hq, hext⟩ := exists_ofY? (mul_lt _ _) hylt hx hy
  refine ⟨q, ?_, e, hext, rfl⟩
  rw [Point.octets, ofOctets?_ofNat (hylt.trans (by decide)), hq]

/-! ## The base point -/

/-- The coordinates of the base point. -/
def baseX : Nat := 15112221349535400772501151409588531511454012693041857206046113283949847762202

@[inherit_doc baseX]
def baseY : Nat := 46316835694926478169428394003475163141307993866256225615783033603165251855960

theorem base_onCurve :
    -(baseX : Element) ^ 2 + (baseY : Element) ^ 2 = 1 + Edwards.d * (baseX : Element) ^ 2 * (baseY : Element) ^ 2 := by
  have h : (-(baseX : Element) ^ 2 + (baseY : Element) ^ 2 - 1) * 121666 =
      -121665 * (baseX : Element) ^ 2 * (baseY : Element) ^ 2 := by decide +kernel
  refine mul_right_cancel₀ (show (121666 : Element) ≠ 0 by decide) ?_
  linear_combination h - (baseX : Element) ^ 2 * (baseY : Element) ^ 2 * Edwards.d_mul

theorem standsFor_base : base.StandsFor Curve25519.base := by
  have hmatches : (⟨baseX, baseY, base_onCurve⟩ : Edwards).Matches 9
      14781619447589544791020593568409986887264606134616475288964881837755586237401 :=
    ⟨by decide +kernel, by decide +kernel, by decide +kernel⟩
  obtain ⟨p, hp, hext⟩ := exists_ofY? (x := baseX) (y := baseY) (by decide) (by decide)
    (e := ⟨baseX, baseY, base_onCurve⟩) rfl rfl
  have hy : mul 4 (inverse 5) = baseY := by
    rw [← cast_inj (mul_lt _ _) (by decide), cast_mul, cast_inverse]
    refine mul_right_cancel₀ (show ((5 : Nat) : Element) ≠ 0 by decide) ?_
    rw [inv_mul_cancel_right₀ (by decide)]
    decide +kernel
  refine ⟨_, ?_, hmatches.toPoint_eq⟩
  rw [base, hy]
  have hodd : decide (baseX % 2 = 1) = false := by decide
  rw [hodd] at hp
  rwa [hp]

end Point

/-! ## Signatures -/

theorem challenge_lt (data : Octets) : challenge data < order := Nat.mod_lt _ (by decide)

theorem order_lt : order < 2 ^ 256 := by decide

/-- A multiple of the base point is of small order only for a multiple of the order. -/
theorem isSmallOrder_iff_of_nsmul {p : Point} {n : Nat} (hp : p.StandsFor (n • Curve25519.base)) :
    p.isSmallOrder = true ↔ order ∣ n := by
  have height : ¬order ∣ 8 := fun h => absurd (Nat.le_of_dvd (by decide) h) (by decide)
  rw [hp.isSmallOrder_iff, ← mul_nsmul, Curve25519.nsmul_base_eq_zero_iff,
    Nat.Prime.dvd_mul order_prime, or_iff_left height]

/-- The signing equation. -/
theorem nsmul_base_eq (r k a : Nat) :
    ((r + k * a) % order) • Curve25519.base + k • -(a • Curve25519.base) = r • Curve25519.base := by
  have hmod : ((r + k * a) % order) • Curve25519.base = (r + k * a) • Curve25519.base := by
    conv_rhs => rw [← Nat.mod_add_div (r + k * a) order, add_nsmul, mul_nsmul,
      Curve25519.order_nsmul_base, nsmul_zero, add_zero]
  rw [hmod, add_nsmul, mul_nsmul', neg_nsmul, add_neg_cancel_right]

/-- Where the equation holds, a signature of two halves is valid unless its point is of small order. -/
theorem isValid_append {key point scalar : Octets.Sized 32} {a r : Point} {digest : Octets}
    (hr : Point.ofOctets? point = some r) (hs : Octets.ofLittleEndian scalar.val < order)
    (hsmall : a.isSmallOrder = false)
    (he : ((Point.base.multiply (Octets.ofLittleEndian scalar.val)).add
      (a.neg.multiply (challenge (point.val ++ key.val ++ digest)))).same r = true)
    (hl : (point.val ++ scalar.val).length = 64) :
    isValid key a digest ⟨point.val ++ scalar.val, hl⟩ = !r.isSmallOrder := by
  have hfirst : Octets.resize 32 (point.val ++ scalar.val) = point := by
    refine Subtype.ext ?_
    have htake : (point.val ++ scalar.val).take 32 = point.val := by
      rw [List.take_append_of_le_length point.property.ge, List.take_of_length_le point.property.le]
    simp [Octets.resize, htake, hl]
  have hlast : (point.val ++ scalar.val).drop 32 = scalar.val := List.drop_left' point.property
  rw [isValid, hfirst, hr, Option.any_some, hlast, hsmall, decide_eq_true hs]
  simp only [Bool.not_false, Bool.and_true, Bool.true_and, he]

/-- **What was signed is valid, unless its one-time scalar is zero.** -/
theorem verify_sign_iff (seed : Octets.Sized 32) (digest : Octets) :
    verify (publicKey seed) digest (sign seed digest) = .ok () ↔ nonce seed digest ≠ 0 := by
  have hbase := Point.standsFor_base
  have hclamp := not_order_dvd_clamp ((HashFunction.hash .sha512 seed.val).take 32)
  have hsecret := (clamp_lt ((HashFunction.hash .sha512 seed.val).take 32)).trans
    (show 2 ^ 255 < 2 ^ 256 by decide)
  have hnonce : nonce seed digest < order := challenge_lt _
  obtain ⟨a, ha, hA⟩ := (hbase.multiply hsecret).octets
  obtain ⟨r, hr, hR⟩ := (hbase.multiply (hnonce.trans order_lt)).octets
  have hsmall : a.isSmallOrder = false :=
    Bool.eq_false_iff.mpr fun h => hclamp ((isSmallOrder_iff_of_nsmul hA).mp h)
  have hzero : r.isSmallOrder = true ↔ nonce seed digest = 0 := by
    rw [isSmallOrder_iff_of_nsmul hR]
    exact ⟨fun h => Nat.eq_zero_of_dvd_of_lt h hnonce, fun h => h ▸ dvd_zero order⟩
  have hscalar (n : Nat) :
      Octets.ofLittleEndian (Octets.Sized.ofNat 32 (n % order)).val = n % order := by
    rw [Octets.Sized.ofNat, Octets.ofLittleEndian_littleEndian]
    exact Nat.mod_eq_of_lt ((Nat.mod_lt n (by decide)).trans order_lt)
  have hvalid : isValid (publicKey seed) a digest (sign seed digest) = !r.isSmallOrder := by
    refine isValid_append hr ?_ hsmall ?_ _
    · rw [hscalar]
      exact Nat.mod_lt _ (by decide)
    · rw [hscalar]
      refine (((hbase.multiply ?_).add (hA.neg.multiply ?_)).same_iff hR).mpr (nsmul_base_eq _ _ _)
      · exact (Nat.mod_lt _ (by decide)).trans order_lt
      · exact (challenge_lt _).trans order_lt
  have hkey : Point.ofOctets? (publicKey seed) = some a := ha
  rw [verify, hkey, Option.elim_some, hvalid, ne_eq, ← hzero]
  cases r.isSmallOrder <;> simp

end OpenPGP.Crypto.Ed25519
