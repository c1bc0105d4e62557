import OpenPGP.Proofs.Curve.BasePoint
/-!
# Key agreement

Two secret scalars and the public point of the other one give the same secret, which is
the `u` of a multiple of the base point and never zero.

Results:
* `X25519.shared_publicKey_comm`: both sides agree on a secret.
* `X25519.shared_publicKey_ne_zero`: which is not the one that is refused.
-/
namespace OpenPGP.Crypto.X25519

open Field25519 Curve25519

theorem multiply_lt (scalar u : Nat) : multiply scalar u < prime := mul_lt _ _

theorem ofOctets_ofNat {n : Nat} (h : n < prime) : ofOctets (Octets.Sized.ofNat 32 n) = n := by
  rw [ofOctets, Octets.Sized.ofNat, Octets.ofLittleEndian_littleEndian,
    Nat.mod_eq_of_lt (h.trans (by decide) : n < Nat.pow 256 32),
    Nat.mod_eq_of_lt (h.trans (by decide) : n < 1 <<< 255)]

theorem cast_multiply_base (secret : Octets.Sized 32) :
    ((multiply (clamp secret.val) 9 : Nat) : Element) = (clamp secret.val • base).abscissa :=
  cast_multiply abscissa_base (by decide) (clamp_lt _)

/-- What the secret of two scalars is made of. -/
theorem cast_multiply_publicKey (a b : Octets.Sized 32) :
    ((multiply (clamp a.val) (ofOctets (publicKey b)) : Nat) : Element) =
      ((clamp a.val * clamp b.val) • base).abscissa := by
  have hb := cast_multiply_base b
  rw [publicKey, ofOctets_ofNat (multiply_lt _ _), mul_nsmul']
  refine cast_multiply hb.symm ?_ (clamp_lt _)
  rw [hb]
  exact abscissa_nsmul_base_ne_zero (not_order_dvd_clamp _)

/-- Both sides agree on a secret. -/
theorem shared_publicKey_comm (a b : Octets.Sized 32) :
    shared a (publicKey b) = shared b (publicKey a) := by
  refine congrArg (Octets.Sized.ofNat 32) ((cast_inj (multiply_lt _ _) (multiply_lt _ _)).mp ?_)
  rw [cast_multiply_publicKey, cast_multiply_publicKey, Nat.mul_comm]

/-- The secret is never zero. -/
theorem shared_publicKey_ne_zero (a b : Octets.Sized 32) :
    shared a (publicKey b) ≠ Octets.Sized.zero 32 := by
  intro h
  have hz : Octets.Sized.zero 32 = Octets.Sized.ofNat 32 0 := rfl
  have h0 : multiply (clamp a.val) (ofOctets (publicKey b)) = 0 := by
    rw [← ofOctets_ofNat (multiply_lt _ (ofOctets (publicKey b))), ← ofOctets_ofNat prime_pos, ← hz, ← h]
    rfl
  have hcast := cast_multiply_publicKey a b
  rw [h0, Nat.cast_zero] at hcast
  refine abscissa_nsmul_base_ne_zero (fun hd => ?_) hcast.symm
  exact ((Nat.Prime.dvd_mul Ed25519.order_prime).mp hd).elim (not_order_dvd_clamp _) (not_order_dvd_clamp _)

end OpenPGP.Crypto.X25519
