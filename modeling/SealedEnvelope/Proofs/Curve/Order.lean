import Mathlib.GroupTheory.OrderOfElement
import SealedEnvelope.Proofs.Curve.Secp256k1

/-!
# The order of the base point

A secret key is a factor below the order of the curve, and its public key is a multiple of
the base point.  That no such multiple is infinite is the theorem here
(`Scalar.multiple_base`); it needs that `order` is the order of the base point, and that is
a computation.

## The computation

With a division in each sum the multiple of the base point by `order - 1` takes long to
compute.  So it is computed with quotients: `Jacobian` stands for the point with the
coordinates `x / z ^ 2` and `y / z ^ 3`, and its sums divide by nothing.  They are right only
where the points are in general position, but one need not look whether they are: in every
other case the sum has `z = 0`, and from then on all do.  So `Jacobian.Represents` says
something only if `z ≠ 0`, and looking at the last `z` is enough.
-/

namespace SealedEnvelope.Secp256k1

open SealedEnvelope.Modular (residue)

/-- The coordinates of a point as `x / z ^ 2` and `y / z ^ 3`. -/
structure Jacobian where
  x : Element
  y : Element
  z : Element
  deriving DecidableEq

namespace Jacobian

/-- Twice a point. -/
def double (p : Jacobian) : Jacobian :=
  let square := p.y * p.y
  let s := element 4 * (p.x * square)
  let m := element 3 * (p.x * p.x)
  let x := m * m - element 2 * s
  ⟨x, m * (s - x) - element 8 * (square * square), element 2 * (p.y * p.z)⟩

/-- The sum of two points. -/
def add (p : Jacobian) (q : Point) : Jacobian :=
  let h := q.x * (p.z * p.z) - p.x
  let r := q.y * (p.z * (p.z * p.z)) - p.y
  let v := p.x * (h * h)
  let x := r * r - h * (h * h) - element 2 * v
  ⟨x, r * (v - x) - p.y * (h * (h * h)), p.z * h⟩

/-- A multiple of a point, for the bits of the factor. -/
def multipleOnto (q : Point) : List Bool → Jacobian → Jacobian
  | [], total => total
  | bit :: bits, total =>
    multipleOnto q bits (if bit then total.double.add q else total.double)

/-- The coordinates are those of an element of the group, unless `z` is zero. -/
def Represents (p : Jacobian) (P : curve.Point) : Prop :=
  residue p.z ≠ 0 → ∃ x y h, P = .some x y h ∧
    residue p.x = x * residue p.z ^ 2 ∧ residue p.y = y * residue p.z ^ 3

end Jacobian

/-- A small number in the field. -/
theorem residue_element (n : ℕ) : residue (element n) = (n : F) :=
  Modular.residue_ofNat n

theorem addX (x₁ x₂ slope : F) : curve.addX x₁ x₂ slope = slope ^ 2 - x₁ - x₂ := by
  simp [WeierstrassCurve.Affine.addX, curve]

theorem addY (x₁ x₂ y slope : F) :
    curve.addY x₁ x₂ y slope = slope * (x₁ - curve.addX x₁ x₂ slope) - y := by
  rw [WeierstrassCurve.Affine.addY, negY, WeierstrassCurve.Affine.negAddY]
  ring

namespace Jacobian

theorem Represents.double {p : Jacobian} {P : curve.Point} (h : p.Represents P) :
    p.double.Represents (P + P) := by
  intro hz
  have hdouble : residue p.double.z = 2 * (residue p.y * residue p.z) := by
    simp only [Jacobian.double, Modular.residue_mul, residue_element, Nat.cast_ofNat]
  rw [hdouble] at hz
  have hyz := right_ne_zero_of_mul hz
  obtain ⟨x, y, hns, rfl, hx, hy⟩ := h (right_ne_zero_of_mul hyz)
  have hy₀ : y ≠ 0 := by
    rintro rfl
    exact left_ne_zero_of_mul hyz (by rw [hy, zero_mul])
  have htwice : y - curve.negY x y ≠ 0 := by
    rw [negY, sub_neg_eq_add, ← two_mul]
    exact mul_ne_zero char_ne_two hy₀
  have hslope : curve.slope x x y y * (2 * y) = 3 * x ^ 2 := by
    rw [WeierstrassCurve.Affine.slope_of_Y_ne rfl (sub_ne_zero.mp htwice), div_mul_eq_mul_div,
      div_eq_iff htwice, negY]
    simp only [curve]
    ring
  refine ⟨_, _, _, WeierstrassCurve.Affine.Point.add_self_of_Y_ne (sub_ne_zero.mp htwice), ?_, ?_⟩
  · rw [hdouble, addX]
    simp only [Jacobian.double, Modular.residue_mul, Modular.residue_sub, residue_element,
      Nat.cast_ofNat, hx, hy]
    linear_combination (-(residue p.z ^ 8)) *
      (curve.slope x x y y * (2 * y) + 3 * x ^ 2) * hslope
  · rw [hdouble, addY, addX]
    simp only [Jacobian.double, Modular.residue_mul, Modular.residue_sub, residue_element,
      Nat.cast_ofNat, hx, hy]
    linear_combination residue p.z ^ 12 * ((curve.slope x x y y * (2 * y)) ^ 2 +
      3 * x ^ 2 * (curve.slope x x y y * (2 * y)) + 9 * x ^ 4 - 12 * x * y ^ 2) * hslope

theorem Represents.add {p : Jacobian} {q : Point} {P : curve.Point} (h : p.Represents P) :
    (p.add q).Represents (P + toGroup (some q)) := by
  intro hz
  have hadd : residue (p.add q).z =
      residue p.z * (residue q.x * (residue p.z * residue p.z) - residue p.x) := by
    simp only [Jacobian.add, Modular.residue_mul, Modular.residue_sub]
  rw [hadd] at hz
  obtain ⟨x, y, hns, rfl, hx, hy⟩ := h (left_ne_zero_of_mul hz)
  have hne : residue q.x - x ≠ 0 := by
    intro hzero
    refine right_ne_zero_of_mul hz ?_
    rw [hx]
    linear_combination residue p.z ^ 2 * hzero
  have hslope : curve.slope x (residue q.x) y (residue q.y) * (residue q.x - x) =
      residue q.y - y := by
    rw [WeierstrassCurve.Affine.slope_of_X_ne (sub_ne_zero.mp hne).symm, ← neg_sub (residue q.y),
      ← neg_sub (residue q.x), neg_div_neg_eq, div_mul_cancel₀ _ hne]
  refine ⟨_, _, _, WeierstrassCurve.Affine.Point.add_of_X_ne (sub_ne_zero.mp hne).symm, ?_, ?_⟩
  · rw [hadd, addX]
    simp only [Jacobian.add, Modular.residue_mul, Modular.residue_sub, residue_element,
      Nat.cast_ofNat, hx, hy]
    linear_combination (-(residue p.z ^ 6)) *
      (curve.slope x (residue q.x) y (residue q.y) * (residue q.x - x) + (residue q.y - y)) * hslope
  · rw [hadd, addY, addX]
    simp only [Jacobian.add, Modular.residue_mul, Modular.residue_sub, residue_element,
      Nat.cast_ofNat, hx, hy]
    linear_combination residue p.z ^ 9 *
      ((curve.slope x (residue q.x) y (residue q.y) * (residue q.x - x)) ^ 2 +
        curve.slope x (residue q.x) y (residue q.y) * (residue q.x - x) * (residue q.y - y) +
        (residue q.y - y) ^ 2 - (residue q.x - x) ^ 2 * (2 * x + residue q.x)) * hslope

theorem Represents.multipleOnto {q : Point} (bits : List Bool) :
    ∀ {p : Jacobian} {factor : ℕ}, p.Represents (factor • toGroup (some q)) →
      (Jacobian.multipleOnto q bits p).Represents
        (Modular.appendBits factor bits • toGroup (some q)) := by
  induction bits with
  | nil => exact fun h => h
  | cons bit bits ih =>
    intro p factor h
    refine ih ?_
    have htwice : p.double.Represents ((2 * factor) • toGroup (some q)) := by
      rw [two_mul, add_smul]
      exact h.double
    cases bit with
    | false => exact htwice
    | true =>
      show (p.double.add q).Represents ((2 * factor + 1) • toGroup (some q))
      rw [succ_nsmul]
      exact htwice.add

end Jacobian

/-! ## The base point -/

/-- The base point in the group. -/
def baseGroup : curve.Point := toGroup (some Point.base)

/-- The multiple of the base point by `order - 1`, as quotients: the factor is a one and 255
more bits. -/
def oppositeBase : Jacobian :=
  Jacobian.multipleOnto .base (Modular.bits 255 (order - 1)) ⟨Point.base.x, Point.base.y, element 1⟩

theorem oppositeBase_eq : oppositeBase.z ≠ element 0 ∧
    oppositeBase.x = Point.base.x * (oppositeBase.z * oppositeBase.z) ∧
    oppositeBase.y =
      (element 0 - Point.base.y) * (oppositeBase.z * (oppositeBase.z * oppositeBase.z)) := by
  decide +kernel

/-- The multiple of the base point by `order - 1` is its inverse. -/
theorem pred_order_smul_baseGroup : (order - 1) • baseGroup = -baseGroup := by
  have hstart : (⟨Point.base.x, Point.base.y, element 1⟩ : Jacobian).Represents
      (1 • baseGroup) := by
    intro _
    refine ⟨_, _, _, one_smul ℕ baseGroup, ?_, ?_⟩ <;> rw [residue_element] <;> simp
  have hfactor : Modular.appendBits 1 (Modular.bits 255 (order - 1)) = order - 1 := by
    rw [Modular.appendBits_bits]
    decide +kernel
  obtain ⟨hz, hx, hy⟩ := oppositeBase_eq
  have hzero : residue (element 0) = 0 := by
    rw [residue_element, Nat.cast_zero]
  have hz : residue oppositeBase.z ≠ 0 := fun h =>
    hz (Modular.residue_injective (h.trans hzero.symm))
  obtain ⟨x, y, hns, heq, hx', hy'⟩ := hstart.multipleOnto (Modular.bits 255 (order - 1)) hz
  rw [hfactor] at heq
  rw [show Jacobian.multipleOnto _ _ _ = oppositeBase from rfl, hx, Modular.residue_mul,
    Modular.residue_mul, ← pow_two] at hx'
  rw [show Jacobian.multipleOnto _ _ _ = oppositeBase from rfl, hy, Modular.residue_mul,
    Modular.residue_mul, Modular.residue_mul, Modular.residue_sub, hzero, zero_sub, ← pow_two,
    ← pow_succ'] at hy'
  obtain rfl := mul_right_cancel₀ (pow_ne_zero 2 hz) hx'
  obtain rfl := mul_right_cancel₀ (pow_ne_zero 3 hz) hy'
  rw [show (order - 1) • baseGroup = _ from heq, baseGroup, toGroup,
    WeierstrassCurve.Affine.Point.neg_some, WeierstrassCurve.Affine.Point.some.injEq, negY]
  exact ⟨rfl, rfl⟩

/-- **The order of the base point is `order`.** -/
theorem addOrderOf_baseGroup : addOrderOf baseGroup = order := by
  have : Fact order.Prime := ⟨Primality.prime_order⟩
  refine addOrderOf_eq_prime ?_ (WeierstrassCurve.Affine.Point.some_ne_zero _)
  calc order • baseGroup = (order - 1) • baseGroup + baseGroup :=
        succ_nsmul baseGroup (order - 1)
    _ = 0 := by rw [pred_order_smul_baseGroup, neg_add_cancel]

/-- A multiple of the base point is infinite only if the factor is a multiple of `order`. -/
theorem smul_baseGroup_eq_zero {k : ℕ} : k • baseGroup = 0 ↔ order ∣ k := by
  rw [← addOrderOf_dvd_iff_nsmul_eq_zero, addOrderOf_baseGroup]

/-! ## Keys -/

namespace Scalar

theorem not_order_dvd (k : Scalar) : ¬order ∣ k.value := fun h =>
  absurd (Nat.le_of_dvd k.positive h) (Nat.not_le.mpr k.below)

theorem value_lt (k : Scalar) : k.value < 2 ^ 256 :=
  k.below.trans (by decide)

theorem toGroup_multiple (k : Scalar) (p : Point) :
    toGroup (p.multiple k.value) = k.value • toGroup (some p) :=
  Secp256k1.toGroup_multiple p k.value_lt

/-- **The public key of a secret one is a multiple of the base point**, and never the
substitute for the infinite point. -/
theorem toGroup_publicKey (k : Scalar) :
    toGroup (some k.publicKey) = k.value • baseGroup := by
  have hmultiple := k.toGroup_multiple Point.base
  have hne : k.value • baseGroup ≠ 0 := fun h => k.not_order_dvd (smul_baseGroup_eq_zero.mp h)
  rw [publicKey]
  cases h : Point.base.multiple k.value with
  | none =>
    rw [h] at hmultiple
    exact absurd hmultiple.symm hne
  | some p =>
    rw [Option.getD_some, ← h]
    exact hmultiple

/-- **The multiple of the base point is not infinite**, and it is the public key. -/
theorem multiple_base (k : Scalar) : Point.base.multiple k.value = some k.publicKey :=
  toGroup_injective ((k.toGroup_multiple Point.base).trans k.toGroup_publicKey.symm)

/-- The multiple of a public key is that of the base point, by the product. -/
theorem toGroup_multiple_publicKey (a b : Scalar) :
    toGroup (b.publicKey.multiple a.value) = (a.value * b.value) • baseGroup := by
  rw [a.toGroup_multiple, b.toGroup_publicKey, mul_smul]

/-- **Both sides of an exchange compute the same secret.** -/
theorem agree_publicKey_comm (a b : Scalar) : a.agree b.publicKey = b.agree a.publicKey := by
  have hne : (a.value * b.value) • baseGroup ≠ 0 := fun h =>
    ((Nat.Prime.dvd_mul Primality.prime_order).mp (smul_baseGroup_eq_zero.mp h)).elim
      a.not_order_dvd b.not_order_dvd
  have heq : b.publicKey.multiple a.value = a.publicKey.multiple b.value := by
    refine toGroup_injective ?_
    rw [toGroup_multiple_publicKey, toGroup_multiple_publicKey, mul_comm]
  have hsome := toGroup_multiple_publicKey a b
  rw [agree, agree, ← heq]
  cases h : b.publicKey.multiple a.value with
  | none =>
    rw [h] at hsome
    exact absurd hsome.symm hne
  | some p => rw [Option.getD_some, Option.getD_some]

end Scalar

end SealedEnvelope.Secp256k1
