import Mathlib.FieldTheory.Finite.Basic
import SealedEnvelope.Curve.Modular

/-!
# Arithmetic modulo a prime is that of a field

The numbers below a modulus with their operations are the ring of residues, and powers by
squaring are its powers.  If the modulus is prime then the power that is taken for the
inverse is the inverse, with zero for zero, and the power that tells squares tells them
(`isSquare_iff`).
-/

namespace SealedEnvelope.Modular

variable {n : ℕ}

/-- The residue of a number below the modulus. -/
def residue (x : Fin (n + 1)) : ZMod (n + 1) := x

theorem residue_injective : Function.Injective (residue (n := n)) := fun _ _ h => h

@[simp] theorem residue_add (x y : Fin (n + 1)) : residue (x + y) = residue x + residue y := rfl

@[simp] theorem residue_sub (x y : Fin (n + 1)) : residue (x - y) = residue x - residue y := rfl

@[simp] theorem residue_mul (x y : Fin (n + 1)) : residue (x * y) = residue x * residue y := rfl

@[simp] theorem residue_one : residue (1 : Fin (n + 1)) = 1 := rfl

@[simp] theorem residue_ofNat (k : ℕ) : residue (Fin.ofNat (n + 1) k) = k := by
  refine ZMod.val_injective (n + 1) ?_
  rw [ZMod.val_natCast]
  rfl

@[simp] theorem residue_power (x : Fin (n + 1)) (e : ℕ) : residue (power x e) = residue x ^ e := by
  induction e using Nat.strongRecOn generalizing x with
  | _ e ih =>
    rw [power]
    split
    · next h => rw [h, pow_zero, residue_one]
    · next h =>
      have hsquares := ih (e / 2) (Nat.div_lt_self (Nat.pos_of_ne_zero h) (by decide)) (x * x)
      rw [residue_mul, ← sq (residue x), ← pow_mul] at hsquares
      dsimp only
      split
      · next heven => rw [hsquares, Nat.mul_div_cancel' (Nat.dvd_of_mod_eq_zero heven)]
      · next hodd =>
        rw [residue_mul, hsquares, ← pow_succ']
        congr 1
        omega

/-- A positive number below the modulus is no multiple of it. -/
theorem natCast_ne_zero {k : ℕ} (hpos : 0 < k) (hlt : k < n + 1) : (k : ZMod (n + 1)) ≠ 0 := by
  intro h
  exact absurd (Nat.le_of_dvd hpos ((ZMod.natCast_eq_zero_iff k _).mp h)) (not_le.mpr hlt)

/-- Modulo an odd prime, the power that is taken for the inverse is the inverse. -/
@[simp] theorem residue_inverse [Fact (n + 1).Prime] (hn : 2 ≤ n) (x : Fin (n + 1)) :
    residue (inverse x) = (residue x)⁻¹ := by
  rw [inverse, residue_power]
  by_cases hx : residue x = 0
  · rw [hx, zero_pow (by omega), inv_zero]
  · refine eq_inv_of_mul_eq_one_left ?_
    rw [← pow_succ, Nat.sub_add_cancel (by omega)]
    exact ZMod.pow_card_sub_one_eq_one hx

/-- Modulo an odd prime, the squares are found by a power. -/
theorem isSquare_iff [hprime : Fact (n + 1).Prime] (hn : 2 ≤ n) (x : Fin (n + 1)) :
    isSquare x = true ↔ IsSquare (residue x) := by
  have hhalf : Fintype.card (ZMod (n + 1)) / 2 = n / 2 := by
    have hodd := hprime.out.eq_two_or_odd
    rw [ZMod.card]
    omega
  have hzero : power x (n / 2) = 0 ↔ residue x = 0 := by
    rw [← residue_injective.eq_iff, residue_power]
    exact pow_eq_zero_iff (by omega)
  have hone : power x (n / 2) = 1 ↔ residue x ^ (n / 2) = 1 := by
    rw [← residue_injective.eq_iff, residue_power, residue_one]
  simp only [isSquare, Bool.or_eq_true, decide_eq_true_eq, hzero, hone]
  by_cases hx : residue x = 0
  · rw [hx]
    exact iff_of_true (.inl rfl) (IsSquare.zero)
  · have hchar : ringChar (ZMod (n + 1)) ≠ 2 := by
      rw [ZMod.ringChar_zmod_n]
      omega
    rw [FiniteField.isSquare_iff hchar hx, hhalf]
    exact or_iff_right hx

end SealedEnvelope.Modular
