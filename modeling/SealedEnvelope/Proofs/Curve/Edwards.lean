import Mathlib.Algebra.Field.Basic
import Mathlib.Algebra.Group.Even
import Mathlib.Tactic.LinearCombination
import Mathlib.Tactic.Ring

/-!
# The addition law of an Edwards curve

On the curve `y ^ 2 - x ^ 2 = 1 + d * x ^ 2 * y ^ 2` there is one formula for the sum of any two
points, with the denominators `1 + e` and `1 - e` for `e = d * x₁ * x₂ * y₁ * y₂`.  This file has
the two facts that make it a law, over any field with `2 ≠ 0` in which `-1` is a square and `d` is
none: neither denominator is ever zero (`OnCurve.denominators_ne_zero`), and the sum is on the curve
again (`OnCurve.add`).

## Why no denominator vanishes

If `e ^ 2 = 1`, then the equations of the two points make the square of `i * x₁ ± e * y₁` a product
of `d` and the square of `x₁ * y₁ * (i * x₂ ± y₂)`, where `i ^ 2 = -1`.  One of the two signs leaves
a factor that is not zero, and then `d` would be a square.
-/

namespace SealedEnvelope.Edwards

variable {F : Type*} [Field F] {d i x y x₁ y₁ x₂ y₂ : F}

/-- The point is on the curve. -/
def OnCurve (d x y : F) : Prop := y ^ 2 - x ^ 2 = 1 + d * x ^ 2 * y ^ 2

/-- The point that is the sum of no points. -/
theorem onCurve_zero_one : OnCurve d 0 1 := by
  rw [OnCurve]
  ring

/-- A number with a square that is a square times another one is a square itself. -/
theorem isSquare_of_mul_sq {a b : F} (hb : b ≠ 0) (h : a ^ 2 = d * b ^ 2) : IsSquare d := by
  refine ⟨a / b, ?_⟩
  rw [div_mul_div_comm, ← sq, ← sq, h, mul_div_cancel_right₀ d (pow_ne_zero 2 hb)]

/-- The square that `d` would be a part of, for a second point `(x₂, y₂)` or `(x₂, -y₂)`. -/
theorem OnCurve.sq_eq {e : F} (hi : i ^ 2 = -1) (h₁ : OnCurve d x₁ y₁) (h₂ : OnCurve d x₂ y₂)
    (he : e = d * x₁ * x₂ * y₁ * y₂) (hone : e ^ 2 = 1) :
    (i * x₁ + e * y₁) ^ 2 = d * (x₁ * y₁ * (i * x₂ + y₂)) ^ 2 := by
  have hproduct : e * (x₁ * y₁) = d * x₁ ^ 2 * y₁ ^ 2 * (x₂ * y₂) := by
    rw [he]
    ring
  have hsquares : d * x₁ ^ 2 * y₁ ^ 2 * (d * x₂ ^ 2 * y₂ ^ 2) = 1 := by
    rw [← hone, he]
    ring
  rw [OnCurve] at h₁ h₂
  linear_combination (x₁ ^ 2 - d * x₁ ^ 2 * y₁ ^ 2 * x₂ ^ 2) * hi + y₁ ^ 2 * hone +
    2 * i * hproduct + h₁ - d * x₁ ^ 2 * y₁ ^ 2 * h₂ - hsquares

/-- The product in the denominators is neither `1` nor `-1`. -/
theorem OnCurve.product_sq_ne_one (hi : i ^ 2 = -1) (htwo : (2 : F) ≠ 0) (hd : ¬IsSquare d)
    (h₁ : OnCurve d x₁ y₁) (h₂ : OnCurve d x₂ y₂) : (d * x₁ * x₂ * y₁ * y₂) ^ 2 ≠ 1 := by
  intro hone
  have hne : d * x₁ * x₂ * y₁ * y₂ ≠ 0 := by
    intro hzero
    rw [hzero, zero_pow two_ne_zero] at hone
    exact zero_ne_one hone
  have hx₁ : x₁ ≠ 0 := by
    rintro rfl
    exact hne (by ring)
  have hy₁ : y₁ ≠ 0 := by
    rintro rfl
    exact hne (by ring)
  have hx₂ : x₂ ≠ 0 := by
    rintro rfl
    exact hne (by ring)
  have hi₀ : i ≠ 0 := by
    rintro rfl
    rw [zero_pow two_ne_zero] at hi
    exact one_ne_zero (neg_eq_zero.mp hi.symm)
  -- the square with the one sign or with the other
  have hvanish : ∀ y₂', OnCurve d x₂ y₂' → (d * x₁ * x₂ * y₁ * y₂') ^ 2 = 1 → i * x₂ + y₂' = 0 := by
    intro y₂' h₂' hone'
    by_contra hsum
    exact hd (isSquare_of_mul_sq (mul_ne_zero (mul_ne_zero hx₁ hy₁) hsum)
      (OnCurve.sq_eq hi h₁ h₂' rfl hone'))
  have hopposite : OnCurve d x₂ (-y₂) := by
    rw [OnCurve, neg_sq]
    exact h₂
  have hplus := hvanish y₂ h₂ hone
  have hminus := hvanish (-y₂) hopposite (by rw [mul_neg, neg_sq, hone])
  refine mul_ne_zero htwo (mul_ne_zero hi₀ hx₂) ?_
  linear_combination hplus + hminus

/-- **The denominators of a sum are not zero.** -/
theorem OnCurve.denominators_ne_zero (hi : i ^ 2 = -1) (htwo : (2 : F) ≠ 0) (hd : ¬IsSquare d)
    (h₁ : OnCurve d x₁ y₁) (h₂ : OnCurve d x₂ y₂) :
    1 + d * x₁ * x₂ * y₁ * y₂ ≠ 0 ∧ 1 - d * x₁ * x₂ * y₁ * y₂ ≠ 0 := by
  have hne := h₁.product_sq_ne_one hi htwo hd h₂
  constructor
  · intro hzero
    exact hne (by linear_combination (d * x₁ * x₂ * y₁ * y₂ - 1) * hzero)
  · intro hzero
    exact hne (by linear_combination (-(d * x₁ * x₂ * y₁ * y₂) - 1) * hzero)

/-- **The sum of two points is on the curve.** -/
theorem OnCurve.add (hplus : 1 + d * x₁ * x₂ * y₁ * y₂ ≠ 0) (hminus : 1 - d * x₁ * x₂ * y₁ * y₂ ≠ 0)
    (h₁ : OnCurve d x₁ y₁) (h₂ : OnCurve d x₂ y₂)
    (hx : x * (1 + d * x₁ * x₂ * y₁ * y₂) = x₁ * y₂ + y₁ * x₂)
    (hy : y * (1 - d * x₁ * x₂ * y₁ * y₂) = y₁ * y₂ + x₁ * x₂) : OnCurve d x y := by
  rw [OnCurve] at h₁ h₂ ⊢
  have hcleared : (y₁ * y₂ + x₁ * x₂) ^ 2 * (1 + d * x₁ * x₂ * y₁ * y₂) ^ 2 -
      (x₁ * y₂ + y₁ * x₂) ^ 2 * (1 - d * x₁ * x₂ * y₁ * y₂) ^ 2 =
      (1 + d * x₁ * x₂ * y₁ * y₂) ^ 2 * (1 - d * x₁ * x₂ * y₁ * y₂) ^ 2 +
        d * (x₁ * y₂ + y₁ * x₂) ^ 2 * (y₁ * y₂ + x₁ * x₂) ^ 2 := by
    linear_combination
      ((y₂ ^ 2 - x₂ ^ 2) * (1 + d * x₁ ^ 2 * y₁ ^ 2 * (d * x₂ ^ 2 * y₂ ^ 2)) -
        d * x₂ ^ 2 * y₂ ^ 2 * (y₁ ^ 2 - x₁ ^ 2 + 1 + d * x₁ ^ 2 * y₁ ^ 2)) * h₁ +
      ((1 + d * x₁ ^ 2 * y₁ ^ 2) * (1 + d * x₁ ^ 2 * y₁ ^ 2 * (d * x₂ ^ 2 * y₂ ^ 2)) -
        d * x₁ ^ 2 * y₁ ^ 2 * (y₂ ^ 2 - x₂ ^ 2 + 1 + d * x₂ ^ 2 * y₂ ^ 2)) * h₂
  rw [← hx, ← hy] at hcleared
  generalize 1 + d * x₁ * x₂ * y₁ * y₂ = plus at hplus hcleared
  generalize 1 - d * x₁ * x₂ * y₁ * y₂ = minus at hminus hcleared
  refine mul_right_cancel₀ (mul_ne_zero (pow_ne_zero 2 hplus) (pow_ne_zero 2 hminus)) ?_
  linear_combination hcleared

end SealedEnvelope.Edwards
