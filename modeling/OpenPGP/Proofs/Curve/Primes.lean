import Mathlib.NumberTheory.LucasPrimality
import Mathlib.Tactic.NormNum.Prime
import OpenPGP.Crypto.Curve.Ed25519
/-!
# The primes of the curve

The size of the field and the order of the base point are prime. Both are shown by
Lucas's test: a number is prime if it has a primitive root, a number whose powers come
back to one after all others. The prime factors of the exponent are shown to be prime in
the same way, down to numbers that are easily tried.

Results:
* `PrattEntry.prime_of_certifies`: a list of primitive roots shows that numbers are prime.
* `Field25519.prime_prime`, `Ed25519.order_prime`: the two primes.
-/
namespace OpenPGP.Crypto

/-! ## Lucas's test -/

/-- The power of `a` by the lowest `bits` bits of an exponent. -/
def powMod (n : Nat) : (bits a e : Nat) → Nat
  | 0, _, _ => 1 % n
  | bits + 1, a, e =>
    let half := powMod n bits (a * a % n) (e / 2)
    if e % 2 = 0 then half else half * a % n

theorem powMod_eq (n : Nat) {bits a e : Nat} (h : e < 2 ^ bits) : powMod n bits a e = a ^ e % n := by
  induction bits generalizing a e with
  | zero =>
    obtain rfl : e = 0 := by omega
    rfl
  | succ bits ih =>
    have hsquare : (a * a % n) ^ (e / 2) % n = a ^ (2 * (e / 2)) % n := by
      rw [← Nat.pow_mod, Nat.pow_mul, Nat.pow_two]
    simp only [powMod, ih (show e / 2 < 2 ^ bits by omega), hsquare]
    split
    · rw [Nat.mul_div_cancel' (by omega)]
    · rw [Nat.mod_mul_mod, ← Nat.pow_succ, show (2 * (e / 2)).succ = e by omega]

/-- A number with what shows that it is prime. -/
structure PrattEntry where
  number : Nat
  root : Nat
  /-- The prime factors of the number before. -/
  factors : List Nat

namespace PrattEntry

/-- Whether the root is a primitive root if all factors are prime. -/
def holds (c : PrattEntry) : Bool :=
  1 < c.number && c.number < 2 ^ 256 && c.factors.prod == c.number - 1 &&
    powMod c.number 256 c.root (c.number - 1) == 1 &&
    c.factors.all fun q => powMod c.number 256 c.root ((c.number - 1) / q) != 1

/-- A number with a primitive root is prime. -/
theorem prime_of_holds {c : PrattEntry} (hf : ∀ q ∈ c.factors, q.Prime) (h : c.holds = true) :
    c.number.Prime := by
  simp only [holds, Bool.and_eq_true, decide_eq_true_eq, beq_iff_eq, List.all_eq_true, bne_iff_ne,
    ne_eq] at h
  obtain ⟨⟨⟨⟨h1, hn⟩, hprod⟩, hone⟩, hother⟩ := h
  have hpow (e : Nat) (he : e ≤ c.number - 1) :
      (c.root : ZMod c.number) ^ e = 1 ↔ powMod c.number 256 c.root e = 1 := by
    rw [powMod_eq c.number (by omega), ← Nat.cast_pow, ← Nat.cast_one, ZMod.natCast_eq_natCast_iff',
      Nat.one_mod_eq_one.mpr (by omega)]
  refine lucas_primality c.number c.root ((hpow _ le_rfl).mpr hone) fun q hq hd => ?_
  rw [← hprod] at hd
  obtain ⟨r, hr, hqr⟩ := (Prime.dvd_prod_iff hq.prime).mp hd
  obtain rfl := (Nat.prime_dvd_prime_iff_eq hq (hf r hr)).mp hqr
  exact fun he => hother q hr ((hpow _ (Nat.div_le_self _ _)).mp he)

/-- Whether every entry holds, its factors being known or numbers of entries before. -/
def certifies : (known : List Nat) → List PrattEntry → Bool
  | _, [] => true
  | known, c :: rest =>
    (c.factors.all (· ∈ known) && c.holds) && certifies (c.number :: known) rest

/-- The numbers of entries that hold are prime. -/
theorem prime_of_certifies {known : List Nat} {entries : List PrattEntry}
    (hk : ∀ q ∈ known, q.Prime) (h : certifies known entries = true) :
    ∀ c ∈ entries, c.number.Prime := by
  induction entries generalizing known with
  | nil => simp
  | cons c rest ih =>
    simp only [certifies, Bool.and_eq_true, List.all_eq_true, decide_eq_true_eq] at h
    obtain ⟨⟨hf, hc⟩, hrest⟩ := h
    have hprime := prime_of_holds (fun q hq => hk q (hf q hq)) hc
    exact List.forall_mem_cons.mpr ⟨hprime, ih (List.forall_mem_cons.mpr ⟨hprime, hk⟩) hrest⟩

end PrattEntry

/-! ## The two primes -/

/-- Primes below sixteen million that divide a number before one of the primes below. -/
def smallPrimes : List Nat :=
  [2, 3, 5, 7, 11, 13, 19, 23, 31, 41, 43, 47, 73, 107, 127, 223, 269, 307, 353, 1361, 2437, 2851, 4153,
    5879, 30703, 57467, 65147, 75707, 82163, 132049, 132667, 137849, 430751, 531581, 569003, 1224481,
    1923133, 8574133, 14741173]

theorem prime_of_mem_smallPrimes : ∀ q ∈ smallPrimes, q.Prime := by
  norm_num [smallPrimes]

/-- What shows that the size of the field is prime. -/
def Field25519.primeEntries : List PrattEntry :=
  [⟨2773320623, 5, [2, 2437, 569003]⟩,
   ⟨72106336199, 7, [2, 13, 2773320623]⟩,
   ⟨1919519569386763, 2, [2, 3, 7, 19, 47, 47, 127, 8574133]⟩,
   ⟨31757755568855353, 10, [2, 2, 2, 3, 31, 107, 223, 4153, 430751]⟩,
   ⟨75445702479781427272750846543864801, 7,
    [2, 2, 2, 2, 2, 3, 3, 5, 5, 75707, 72106336199, 1919519569386763]⟩,
   ⟨74058212732561358302231226437062788676166966415465897661863160754340907, 2,
    [2, 3, 353, 57467, 132049, 1923133, 31757755568855353, 75445702479781427272750846543864801]⟩,
   ⟨prime, 2,
    [2, 2, 3, 65147, 74058212732561358302231226437062788676166966415465897661863160754340907]⟩]

/-- What shows that the order of the base point is prime. -/
def Ed25519.orderEntries : List PrattEntry :=
  [⟨58964693, 2, [2, 2, 14741173]⟩,
   ⟨292386187, 2, [2, 3, 3, 3, 3, 307, 5879]⟩,
   ⟨213441916511, 13, [2, 5, 73, 292386187]⟩,
   ⟨1257559732178653, 2, [2, 2, 3, 7, 23, 531581, 1224481]⟩,
   ⟨4434155615661930479, 17, [2, 41, 43, 1257559732178653]⟩,
   ⟨3044861653679985063343, 5, [2, 3, 11, 30703, 82163, 132667, 137849]⟩,
   ⟨172054593956031949258510691, 2, [2, 5, 1361, 2851, 4434155615661930479]⟩,
   ⟨198211423230930754013084525763697, 5, [2, 2, 2, 2, 3, 23, 58964693, 3044861653679985063343]⟩,
   ⟨19757330305831588566944191468367130476339, 2,
    [2, 269, 213441916511, 172054593956031949258510691]⟩,
   ⟨276602624281642239937218680557139826668747, 2,
    [2, 7, 19757330305831588566944191468367130476339]⟩,
   ⟨order, 2,
    [2, 2, 3, 11, 198211423230930754013084525763697, 276602624281642239937218680557139826668747]⟩]

theorem Field25519.prime_prime : prime.Prime :=
  PrattEntry.prime_of_certifies prime_of_mem_smallPrimes
    (show PrattEntry.certifies smallPrimes primeEntries = true by decide +kernel)
    (primeEntries.getLast (List.cons_ne_nil _ _)) (List.getLast_mem _)

theorem Ed25519.order_prime : order.Prime :=
  PrattEntry.prime_of_certifies prime_of_mem_smallPrimes
    (show PrattEntry.certifies smallPrimes orderEntries = true by decide +kernel)
    (orderEntries.getLast (List.cons_ne_nil _ _)) (List.getLast_mem _)

end OpenPGP.Crypto
