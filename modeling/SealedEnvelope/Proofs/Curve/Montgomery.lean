import Mathlib.AlgebraicGeometry.EllipticCurve.Affine.Point

/-!
# Points of a Montgomery curve by one coordinate

The points of `y ^ 2 = x ^ 3 + a * x ^ 2 + x` form a group, and a ladder computes multiples
in it from first coordinates alone.  This file has the two facts that a ladder needs, over
any field with `2 ≠ 0` and `a ^ 2 ≠ 4`: a quotient for the first coordinate of a point gives
one for twice the point (`Represents.double`), and quotients for two points whose difference
is known give one for their sum (`Represents.add`).

## The exceptional cases

The formulas divide by nothing, so there is no case in which they are undefined; what has to
be seen is that they never give zero over zero.  For twice a point of order two, the first
coordinate is no square root of one.  For the sum of a point and its inverse, their
difference would be the point `(0, 0)` otherwise.
-/

namespace SealedEnvelope.Montgomery

variable {F : Type*} [Field F]

/-- The curve `y ^ 2 = x ^ 3 + a * x ^ 2 + x`. -/
def curve (a : F) : WeierstrassCurve.Affine F := ⟨0, a, 0, 1, 0⟩

variable {a : F}

open WeierstrassCurve.Affine (Point)

/-- The equation of the curve for a point on it. -/
theorem equation {x y : F} (h : (curve a).Nonsingular x y) : y ^ 2 = x ^ 3 + a * x ^ 2 + x := by
  have h := (WeierstrassCurve.Affine.equation_iff x y).mp h.left
  simpa [curve] using h

theorem negY (x y : F) : (curve a).negY x y = -y := by
  simp [WeierstrassCurve.Affine.negY, curve]

theorem four_ne_zero (htwo : (2 : F) ≠ 0) : (4 : F) ≠ 0 := by
  rw [show (4 : F) = 2 * 2 by norm_num]
  exact mul_ne_zero htwo htwo

/-- The quotient `X / Z` is the first coordinate of a point; the point is infinite if `Z` is
zero. -/
def Represents (X Z : F) : (curve a).Point → Prop
  | .zero => X ≠ 0 ∧ Z = 0
  | .some x _ _ => Z ≠ 0 ∧ X = x * Z

theorem represents_zero {X Z : F} : Represents X Z (0 : (curve a).Point) ↔ X ≠ 0 ∧ Z = 0 :=
  Iff.rfl

theorem represents_some {X Z x y : F} {h : (curve a).Nonsingular x y} :
    Represents X Z (Point.some x y h) ↔ Z ≠ 0 ∧ X = x * Z :=
  Iff.rfl

/-! ## First coordinates of sums -/

theorem addX (x₁ x₂ slope : F) : (curve a).addX x₁ x₂ slope = slope ^ 2 - a - x₁ - x₂ := by
  simp [WeierstrassCurve.Affine.addX, curve]

variable [DecidableEq F]

/-- Twice a point with `y ≠ 0`. -/
theorem exists_add_self {x y : F} (h : (curve a).Nonsingular x y) (htwo : (2 : F) ≠ 0)
    (hy : y ≠ 0) :
    ∃ x' y' h', Point.some x y h + Point.some x y h = Point.some x' y' h' ∧
      x' * (4 * y ^ 2) = (x ^ 2 - 1) ^ 2 := by
  have hdouble : y - (curve a).negY x y ≠ 0 := by
    rw [negY, sub_neg_eq_add, ← two_mul]
    exact mul_ne_zero htwo hy
  have hslope : (curve a).slope x x y y * (2 * y) = 3 * x ^ 2 + 2 * a * x + 1 := by
    rw [WeierstrassCurve.Affine.slope_of_Y_ne rfl (sub_ne_zero.mp hdouble), div_mul_eq_mul_div,
      div_eq_iff hdouble, negY]
    simp only [curve]
    ring
  refine ⟨_, _, _, Point.add_self_of_Y_ne (sub_ne_zero.mp hdouble), ?_⟩
  rw [addX]
  linear_combination ((curve a).slope x x y y * (2 * y) + (3 * x ^ 2 + 2 * a * x + 1)) * hslope -
    4 * (a + 2 * x) * equation h

/-- The sum and the difference of two points with different first coordinates. -/
theorem exists_add_sub {x₁ y₁ x₂ y₂ : F} (h₁ : (curve a).Nonsingular x₁ y₁)
    (h₂ : (curve a).Nonsingular x₂ y₂) (hne : x₁ ≠ x₂) :
    ∃ x y h x' y' h', Point.some x₁ y₁ h₁ + Point.some x₂ y₂ h₂ = Point.some x y h ∧
      Point.some x₂ y₂ h₂ - Point.some x₁ y₁ h₁ = Point.some x' y' h' ∧
      x * x' * (x₁ - x₂) ^ 2 = (x₁ * x₂ - 1) ^ 2 := by
  have hsub : x₁ - x₂ ≠ 0 := sub_ne_zero.mpr hne
  have hslope : (curve a).slope x₁ x₂ y₁ y₂ * (x₁ - x₂) = y₁ - y₂ := by
    rw [WeierstrassCurve.Affine.slope_of_X_ne hne, div_mul_cancel₀ _ hsub]
  have hslope' : (curve a).slope x₂ x₁ y₂ ((curve a).negY x₁ y₁) * (x₂ - x₁) = y₁ + y₂ := by
    rw [WeierstrassCurve.Affine.slope_of_X_ne hne.symm,
      div_mul_cancel₀ _ (sub_ne_zero.mpr hne.symm), negY]
    ring
  have hx : (curve a).addX x₁ x₂ ((curve a).slope x₁ x₂ y₁ y₂) * (x₁ - x₂) ^ 2 =
      (y₁ - y₂) ^ 2 - (a + x₁ + x₂) * (x₁ - x₂) ^ 2 := by
    rw [addX, ← hslope]
    ring
  have hx' : (curve a).addX x₂ x₁ ((curve a).slope x₂ x₁ y₂ ((curve a).negY x₁ y₁)) *
      (x₁ - x₂) ^ 2 = (y₁ + y₂) ^ 2 - (a + x₁ + x₂) * (x₁ - x₂) ^ 2 := by
    rw [addX, ← hslope']
    ring
  have hdifference := (sub_eq_add_neg (Point.some x₂ y₂ h₂) (Point.some x₁ y₁ h₁)).trans
    ((congrArg _ (Point.neg_some h₁)).trans (Point.add_of_X_ne hne.symm))
  refine ⟨_, _, _, _, _, _, Point.add_of_X_ne hne, hdifference, ?_⟩
  refine mul_right_cancel₀ (pow_ne_zero 2 hsub) ?_
  have he₁ := equation h₁
  have he₂ := equation h₂
  calc _ = ((y₁ - y₂) ^ 2 - (a + x₁ + x₂) * (x₁ - x₂) ^ 2) *
        ((y₁ + y₂) ^ 2 - (a + x₁ + x₂) * (x₁ - x₂) ^ 2) := by
        rw [← hx, ← hx']
        ring
    _ = (x₁ * x₂ - 1) ^ 2 * (x₁ - x₂) ^ 2 := by
        linear_combination
          (y₁ ^ 2 + (x₁ ^ 3 + a * x₁ ^ 2 + x₁) - 2 * y₂ ^ 2 -
            2 * (a + x₁ + x₂) * (x₁ - x₂) ^ 2) * he₁ +
          (y₂ ^ 2 + (x₂ ^ 3 + a * x₂ ^ 2 + x₂) - 2 * (x₁ ^ 3 + a * x₁ ^ 2 + x₁) -
            2 * (a + x₁ + x₂) * (x₁ - x₂) ^ 2) * he₂

/-- A point with `y = 0` is its own inverse. -/
theorem add_self_of_eq_zero {x y : F} (h : (curve a).Nonsingular x y) (hy : y = 0) :
    Point.some x y h + Point.some x y h = 0 := by
  refine Point.add_self_of_Y_eq ?_
  rw [negY, hy, neg_zero]

/-! ## The steps of a ladder -/

/-- A quotient for a point gives one for twice the point, where `c` is a quarter of
`a - 2`. -/
theorem Represents.double {X Z c : F} {P : (curve a).Point} (htwo : (2 : F) ≠ 0)
    (ha : a ^ 2 ≠ 4) (hc : 4 * c = a - 2) (h : Represents X Z P) :
    Represents ((X + Z) * (X + Z) * ((X - Z) * (X - Z)))
      (((X + Z) * (X + Z) - (X - Z) * (X - Z)) *
        ((X + Z) * (X + Z) + c * ((X + Z) * (X + Z) - (X - Z) * (X - Z)))) (P + P) := by
  cases P with
  | zero =>
    obtain ⟨hX, rfl⟩ := h
    refine ⟨?_, by ring⟩
    simpa using hX
  | some x y hns =>
    obtain ⟨hZ, rfl⟩ := h
    have hequation := equation hns
    have hnumerator : (x * Z + Z) * (x * Z + Z) * ((x * Z - Z) * (x * Z - Z)) =
        Z ^ 4 * (x ^ 2 - 1) ^ 2 := by ring
    have hdenominator : ((x * Z + Z) * (x * Z + Z) - (x * Z - Z) * (x * Z - Z)) *
        ((x * Z + Z) * (x * Z + Z) +
          c * ((x * Z + Z) * (x * Z + Z) - (x * Z - Z) * (x * Z - Z))) =
        Z ^ 4 * (4 * y ^ 2) := by
      linear_combination -4 * Z ^ 4 * hequation + 4 * x ^ 2 * Z ^ 4 * hc
    rw [hnumerator, hdenominator]
    by_cases hy : y = 0
    · rw [add_self_of_eq_zero hns hy, represents_zero]
      refine ⟨mul_ne_zero (pow_ne_zero 4 hZ) (pow_ne_zero 2 fun hone => ha ?_), by rw [hy]; ring⟩
      -- here `x ^ 2 = 1`, so that `x * (2 + a * x) = 0`
      have hx : x ^ 2 = 1 := sub_eq_zero.mp hone
      have hproduct : x * (2 + a * x) = 0 := by
        rw [hy] at hequation
        linear_combination (-x) * hx - hequation
      have hx₀ : x ≠ 0 := by
        rintro rfl
        exact one_ne_zero (hx.symm.trans (zero_pow two_ne_zero))
      have hax : 2 + a * x = 0 := (mul_eq_zero.mp hproduct).resolve_left hx₀
      linear_combination (a * x - 2) * hax - a ^ 2 * hx
    · obtain ⟨x', y', h', hsum, hx'⟩ := exists_add_self hns htwo hy
      rw [hsum, represents_some]
      refine ⟨mul_ne_zero (pow_ne_zero 4 hZ)
        (mul_ne_zero (four_ne_zero htwo) (pow_ne_zero 2 hy)), ?_⟩
      linear_combination (-Z ^ 4) * hx'

/-- Quotients for two points give one for their sum, where `u` is the first coordinate of
their difference and is not zero. -/
theorem Represents.add {X₁ Z₁ X₂ Z₂ u v : F} {P Q : (curve a).Point}
    {hns : (curve a).Nonsingular u v}
    (htwo : (2 : F) ≠ 0) (hu : u ≠ 0) (hdifference : Q - P = Point.some u v hns)
    (hP : Represents X₁ Z₁ P) (hQ : Represents X₂ Z₂ Q) :
    Represents (((X₂ - Z₂) * (X₁ + Z₁) + (X₂ + Z₂) * (X₁ - Z₁)) *
        ((X₂ - Z₂) * (X₁ + Z₁) + (X₂ + Z₂) * (X₁ - Z₁)))
      (u * (((X₂ - Z₂) * (X₁ + Z₁) - (X₂ + Z₂) * (X₁ - Z₁)) *
        ((X₂ - Z₂) * (X₁ + Z₁) - (X₂ + Z₂) * (X₁ - Z₁)))) (P + Q) := by
  have hnumerator : ((X₂ - Z₂) * (X₁ + Z₁) + (X₂ + Z₂) * (X₁ - Z₁)) *
      ((X₂ - Z₂) * (X₁ + Z₁) + (X₂ + Z₂) * (X₁ - Z₁)) = (2 * (X₁ * X₂ - Z₁ * Z₂)) ^ 2 := by ring
  have hdenominator : u * (((X₂ - Z₂) * (X₁ + Z₁) - (X₂ + Z₂) * (X₁ - Z₁)) *
      ((X₂ - Z₂) * (X₁ + Z₁) - (X₂ + Z₂) * (X₁ - Z₁))) = u * (2 * (X₂ * Z₁ - X₁ * Z₂)) ^ 2 := by
    ring
  rw [hnumerator, hdenominator]
  cases P with
  | zero =>
    obtain ⟨hX₁, rfl⟩ := hP
    rw [← WeierstrassCurve.Affine.Point.zero_def, sub_zero] at hdifference
    rw [← WeierstrassCurve.Affine.Point.zero_def, zero_add]
    subst hdifference
    obtain ⟨hZ₂, rfl⟩ := hQ
    refine ⟨mul_ne_zero hu (pow_ne_zero 2 (mul_ne_zero htwo ?_)), by ring⟩
    rw [mul_zero, zero_sub]
    exact neg_ne_zero.mpr (mul_ne_zero hX₁ hZ₂)
  | some x₁ y₁ h₁ =>
    cases Q with
    | zero =>
      obtain ⟨hX₂, rfl⟩ := hQ
      obtain ⟨hZ₁, rfl⟩ := hP
      rw [← WeierstrassCurve.Affine.Point.zero_def, zero_sub, Point.neg_some] at hdifference
      rw [← WeierstrassCurve.Affine.Point.zero_def, add_zero]
      obtain ⟨rfl, -⟩ := Point.some.inj hdifference
      refine ⟨mul_ne_zero hu (pow_ne_zero 2 (mul_ne_zero htwo ?_)), by ring⟩
      rw [mul_zero, sub_zero]
      exact mul_ne_zero hX₂ hZ₁
    | some x₂ y₂ h₂ =>
      obtain ⟨hZ₁, rfl⟩ := hP
      obtain ⟨hZ₂, rfl⟩ := hQ
      by_cases hx : x₁ = x₂
      · rcases Point.X_eq_iff.mp hx with heq | heq
        · rw [heq, sub_self] at hdifference
          exact absurd hdifference.symm (Point.some_ne_zero hns)
        · rw [heq, sub_neg_eq_add] at hdifference
          rw [heq, neg_add_cancel, represents_zero]
          refine ⟨pow_ne_zero 2 (mul_ne_zero htwo ?_), by rw [hx]; ring⟩
          -- their difference is twice one of them, and not the point `(0, 0)`
          have hy : y₂ ≠ 0 := by
            intro hy
            rw [add_self_of_eq_zero h₂ hy] at hdifference
            exact Point.some_ne_zero hns hdifference.symm
          obtain ⟨x', y', h', hsum, hx'⟩ := exists_add_self h₂ htwo hy
          obtain ⟨rfl, -⟩ := Point.some.inj (hsum.symm.trans hdifference)
          have hsquare : x₂ ^ 2 - 1 ≠ 0 := by
            intro hzero
            rw [hzero, zero_pow two_ne_zero] at hx'
            exact mul_ne_zero hu (mul_ne_zero (four_ne_zero htwo) (pow_ne_zero 2 hy)) hx'
          rw [hx, show x₂ * Z₁ * (x₂ * Z₂) - Z₁ * Z₂ = Z₁ * Z₂ * (x₂ ^ 2 - 1) by ring]
          exact mul_ne_zero (mul_ne_zero hZ₁ hZ₂) hsquare
      · obtain ⟨x, y, h, x', y', h', hsum, hsub, hproduct⟩ := exists_add_sub h₁ h₂ hx
        obtain ⟨rfl, -⟩ := Point.some.inj (hsub.symm.trans hdifference)
        rw [hsum]
        refine ⟨mul_ne_zero hu (pow_ne_zero 2 (mul_ne_zero htwo ?_)), ?_⟩
        · rw [show x₂ * Z₂ * Z₁ - x₁ * Z₁ * Z₂ = Z₁ * Z₂ * (x₂ - x₁) by ring]
          exact mul_ne_zero (mul_ne_zero hZ₁ hZ₂) (sub_ne_zero.mpr (Ne.symm hx))
        · linear_combination (-4 * Z₁ ^ 2 * Z₂ ^ 2) * hproduct

end SealedEnvelope.Montgomery
