import Mathlib.FieldTheory.Finite.Basic
import Mathlib.Tactic.NormNum.Prime
import SealedEnvelope.Curve.Field25519
import SealedEnvelope.Curve.Secp256k1

/-!
# The moduli of the curves are prime

Inverses are computed as powers, so the arithmetic of the curves is that of fields only if
the moduli are prime.  Three numbers matter: the moduli of the two fields, and the order of
the base point of secp256k1.

## How a number of 256 bits is seen to be prime

By Pocklington's criterion (`prime_of_factored`) it is enough to know the prime factors of a
part of `p - 1` that is at least the root of `p`, and a number whose powers show that part.
These factors are prime for the same reason, so a list of certificates, each of which names
factors from before it, ends at the large primes (`Certificate.prime_of_mem`).  Checking a
certificate takes a few powers modulo `p`.
-/

namespace SealedEnvelope.Primality

/-! ## Pocklington's criterion -/

/-- A number `p` is prime if a power of some `a` has the order of a large part of `p - 1`
modulo every prime factor of `p`. -/
theorem prime_of_factored {p part : ℕ} {a : ZMod p} (hp : 1 < p) (hpart : part ∣ p - 1)
    (hlarge : p ≤ part * part) (hpower : a ^ (p - 1) = 1)
    (hunit : ∀ q : ℕ, q.Prime → q ∣ part → IsUnit (a ^ ((p - 1) / q) - 1)) : p.Prime := by
  by_contra hnot
  have hr : p.minFac.Prime := Nat.minFac_prime hp.ne'
  have hsq : p.minFac * p.minFac ≤ p := by
    rw [← sq]
    exact Nat.minFac_sq_le_self (by omega) hnot
  have : Fact p.minFac.Prime := ⟨hr⟩
  obtain ⟨k, hk⟩ := hpart
  have hpos : 0 < part := by
    rcases Nat.eq_zero_or_pos part with rfl | h
    · omega
    · exact h
  let f : ZMod p →+* ZMod p.minFac := ZMod.castHom p.minFac_dvd (ZMod p.minFac)
  -- modulo the least factor, the order of this power is the whole part
  have hone : (f a ^ k) ^ part = 1 := by
    rw [← pow_mul, mul_comm, ← hk, ← map_pow, hpower, map_one]
  have horder : orderOf (f a ^ k) = part := by
    refine orderOf_eq_of_pow_and_pow_div_prime hpos hone fun q hq hdvd heq => ?_
    obtain ⟨m, rfl⟩ := hdvd
    have hexponent : (p - 1) / q = k * (q * m / q) := by
      rw [hk, Nat.mul_div_cancel_left _ hq.pos, mul_assoc, Nat.mul_div_cancel_left _ hq.pos,
        mul_comm]
    have hzero : f (a ^ ((p - 1) / q) - 1) = 0 := by
      rw [map_sub, map_pow, map_one, hexponent, pow_mul, heq, sub_self]
    exact ((hunit q hq (dvd_mul_right q m)).map f).ne_zero hzero
  have hne : f a ^ k ≠ 0 := by
    intro hzero
    rw [hzero, zero_pow hpos.ne'] at hone
    exact zero_ne_one hone
  have hle : part ≤ p.minFac - 1 := by
    refine Nat.le_of_dvd (by have := hr.two_le; omega) ?_
    exact horder ▸ ZMod.orderOf_dvd_card_sub_one hne
  have hlt : part < p.minFac := by have := hr.two_le; omega
  exact absurd (hlarge.trans_lt (Nat.mul_lt_mul'' hlt hlt)) (not_lt.mpr hsq)

/-! ## Certificates -/

/-- Goes on from the power for the bits of `e` above the last `count`, modulo `m`. -/
def powerOnto (m a e : ℕ) : (count total : ℕ) → ℕ
  | 0, total => total
  | count + 1, total => powerOnto m a e count (total * total % m * a ^ (e >>> count % 2) % m)

theorem cast_powerOnto {m a e count total : ℕ} (h : (total : ZMod m) = a ^ (e >>> count)) :
    (powerOnto m a e count total : ZMod m) = a ^ e := by
  induction count generalizing total with
  | zero => exact h
  | succ count ih =>
    have hbit : e >>> count = e >>> (count + 1) + e >>> (count + 1) + e >>> count % 2 := by
      rw [Nat.shiftRight_succ]
      omega
    refine ih ?_
    rw [ZMod.natCast_mod, Nat.cast_mul, ZMod.natCast_mod, Nat.cast_mul, Nat.cast_pow, h, ← pow_add,
      ← pow_add, ← hbit]

/-- A power modulo `m`. -/
def power (m a e : ℕ) : ℕ := powerOnto m a e (e.log2 + 1) 1

theorem cast_power (m a e : ℕ) : (power m a e : ZMod m) = a ^ e := by
  refine cast_powerOnto ?_
  rw [Nat.shiftRight_eq_div_pow, Nat.div_eq_of_lt Nat.lt_log2_self, pow_zero, Nat.cast_one]

/-- A number that is to be prime, the base of its powers, and prime factors of one less,
as often as they divide it. -/
structure Certificate where
  number : ℕ
  base : ℕ
  factors : List ℕ

namespace Certificate

/-- Whether the criterion is met, given numbers that are known to be prime. -/
def holds (known : List ℕ) (c : Certificate) : Bool :=
  1 < c.number && (c.number - 1) % c.factors.prod == 0 &&
    c.number ≤ c.factors.prod * c.factors.prod && c.factors.all known.contains &&
    power c.number c.base (c.number - 1) == 1 &&
    c.factors.all fun q =>
      Nat.gcd (power c.number c.base ((c.number - 1) / q) + (c.number - 1)) c.number == 1

theorem prime_of_holds {known : List ℕ} (hknown : ∀ q ∈ known, q.Prime) {c : Certificate}
    (h : c.holds known = true) : c.number.Prime := by
  simp only [holds, Bool.and_eq_true, decide_eq_true_eq, beq_iff_eq, List.all_eq_true,
    List.contains_iff_mem] at h
  obtain ⟨⟨⟨⟨⟨hone, hpart⟩, hlarge⟩, hfactors⟩, hpower⟩, hunits⟩ := h
  have hfull : (c.base : ZMod c.number) ^ (c.number - 1) = 1 := by
    rw [← cast_power, hpower, Nat.cast_one]
  refine prime_of_factored hone (Nat.dvd_of_mod_eq_zero hpart) hlarge hfull fun q hq hdvd => ?_
  obtain ⟨factor, hmem, hdvd⟩ := (Prime.dvd_prod_iff hq.prime).mp hdvd
  obtain rfl : q = factor :=
    (Nat.prime_dvd_prime_iff_eq hq (hknown factor (hfactors factor hmem))).mp hdvd
  have hcoprime := (ZMod.isUnit_iff_coprime _ c.number).mpr (hunits q hmem)
  rw [Nat.cast_add, cast_power, Nat.cast_sub hone.le, ZMod.natCast_self, Nat.cast_one, zero_sub,
    ← sub_eq_add_neg] at hcoprime
  exact hcoprime

/-- Whether certificates hold one after the other, each given the numbers before it. -/
def allHold : (known : List ℕ) → List Certificate → Bool
  | _, [] => true
  | known, c :: rest => c.holds known && allHold (c.number :: known) rest

/-- The numbers of certificates that hold are prime. -/
theorem prime_of_mem {known : List ℕ} {certificates : List Certificate}
    (hknown : ∀ q ∈ known, q.Prime) (h : allHold known certificates = true) :
    ∀ p ∈ certificates.map number, p.Prime := by
  induction certificates generalizing known with
  | nil => exact nofun
  | cons c rest ih =>
    rw [allHold, Bool.and_eq_true] at h
    have hfirst := prime_of_holds hknown h.1
    have hrest := ih (List.forall_mem_cons.mpr ⟨hfirst, hknown⟩) h.2
    exact List.forall_mem_cons.mpr ⟨hfirst, hrest⟩

end Certificate

/-! ## The moduli -/

/-- The small primes that the certificates start from. -/
def smallPrimes : List ℕ :=
  [2, 5, 7, 11, 17, 19, 29, 41, 53, 97, 101, 103, 113, 127, 173, 239]

theorem prime_of_mem_smallPrimes : ∀ q ∈ smallPrimes, q.Prime := by
  simp only [smallPrimes, List.forall_mem_cons]
  norm_num

/-- The certificates of the moduli, each behind those that it needs. -/
def certificates : List Certificate :=
  [⟨96557, 2, [239, 101]⟩, ⟨419, 2, [19, 11]⟩, ⟨20113, 2, [419]⟩, ⟨1206781, 2, [20113]⟩,
   ⟨7240687, 2, [1206781]⟩, ⟨107590001, 2, [53, 29, 7]⟩,
   ⟨255515944373312847190720520512484175977, 2, [107590001, 7240687, 96557]⟩,
   ⟨205115282021455665897114700593932402728804164701536103180137503955397371, 2,
     [255515944373312847190720520512484175977]⟩,
   ⟨Secp256k1.greatest + 1, 2,
     [205115282021455665897114700593932402728804164701536103180137503955397371]⟩,
   ⟨120233, 2, [113, 19]⟩, ⟨9349, 2, [41, 19]⟩, ⟨44706919, 2, [9349]⟩,
   ⟨174723607534414371449, 2, [44706919, 120233]⟩, ⟨1409, 3, [11, 2, 2]⟩, ⟨28181, 2, [1409]⟩,
   ⟨545358713, 2, [28181]⟩, ⟨1871, 2, [17, 11]⟩, ⟨1627771, 2, [1871]⟩,
   ⟨297159362677, 2, [1627771]⟩, ⟨29047611873442575647497758179, 2, [297159362677, 545358713]⟩,
   ⟨341948486974166000522343609283189, 2, [29047611873442575647497758179]⟩,
   ⟨Secp256k1.order, 2, [341948486974166000522343609283189, 174723607534414371449]⟩,
   ⟨4153, 2, [173]⟩, ⟨1723, 2, [41, 7]⟩, ⟨430751, 2, [1723]⟩,
   ⟨31757755568855353, 2, [430751, 4153]⟩, ⟨569003, 2, [419, 97]⟩, ⟨2773320623, 2, [569003]⟩,
   ⟨72106336199, 2, [2773320623]⟩, ⟨991, 2, [11, 5]⟩, ⟨8574133, 2, [991, 103]⟩,
   ⟨1919519569386763, 2, [8574133, 127]⟩,
   ⟨75445702479781427272750846543864801, 2, [1919519569386763, 72106336199]⟩,
   ⟨74058212732561358302231226437062788676166966415465897661863160754340907, 2,
     [75445702479781427272750846543864801, 31757755568855353]⟩,
   ⟨Field25519.greatest + 1, 2,
     [74058212732561358302231226437062788676166966415465897661863160754340907]⟩]

theorem prime_of_mem_certificates : ∀ p ∈ certificates.map Certificate.number, p.Prime :=
  Certificate.prime_of_mem prime_of_mem_smallPrimes (by decide +kernel)

theorem prime_field25519 : (Field25519.greatest + 1).Prime :=
  prime_of_mem_certificates _ (by simp [certificates])

theorem prime_secp256k1 : (Secp256k1.greatest + 1).Prime :=
  prime_of_mem_certificates _ (by simp [certificates])

theorem prime_order : Secp256k1.order.Prime :=
  prime_of_mem_certificates _ (by simp [certificates])

end SealedEnvelope.Primality
