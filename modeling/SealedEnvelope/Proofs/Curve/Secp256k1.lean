import Mathlib.AlgebraicGeometry.EllipticCurve.Affine.Point
import SealedEnvelope.Curve.Secp256k1
import SealedEnvelope.Proofs.Curve.Bits
import SealedEnvelope.Proofs.Curve.Primality
import SealedEnvelope.Proofs.Curve.Residues

/-!
# The points of secp256k1 are a group

The addition of points is that of the group of the curve (`toGroup_sum`), and so a multiple
is a multiple in that group (`toGroup_multiple`).

## The check in the addition

The addition looks whether what it computes is on the curve.  For the sum of two points it
always is, with one exception: the tangent at a point with `y = 0` has no slope, and what is
computed with slope zero would be on the curve only if `63 = 0`.  So the check gives the
infinite point exactly where the group has it.
-/

namespace SealedEnvelope.Secp256k1

open SealedEnvelope.Modular (residue)

/-- The field of the curve. -/
abbrev F : Type := ZMod (greatest + 1)

instance : Fact (greatest + 1).Prime := ⟨Primality.prime_secp256k1⟩

/-- The curve, as a group. -/
def curve : WeierstrassCurve.Affine F := ⟨0, 0, 0, 0, 7⟩

theorem char_ne_two : (2 : F) ≠ 0 := by
  have h : ((2 : ℕ) : F) ≠ 0 := Modular.natCast_ne_zero (by decide) (by decide)
  exact_mod_cast h

theorem char_ne_three : (3 : F) ≠ 0 := by
  have h : ((3 : ℕ) : F) ≠ 0 := Modular.natCast_ne_zero (by decide) (by decide)
  exact_mod_cast h

theorem char_ne_seven : (7 : F) ≠ 0 := by
  have h : ((7 : ℕ) : F) ≠ 0 := Modular.natCast_ne_zero (by decide) (by decide)
  exact_mod_cast h

/-! ## Points -/

theorem equation_iff {x y : F} : curve.Equation x y ↔ y * y = x * x * x + 7 := by
  rw [WeierstrassCurve.Affine.equation_iff]
  simp only [curve]
  constructor
  · intro h
    linear_combination h
  · intro h
    linear_combination h

theorem negY (x y : F) : curve.negY x y = -y := by
  simp [WeierstrassCurve.Affine.negY, curve]

/-- The curve has no singular points. -/
theorem nonsingular_iff {x y : F} : curve.Nonsingular x y ↔ y * y = x * x * x + 7 := by
  rw [WeierstrassCurve.Affine.nonsingular_iff, equation_iff]
  refine ⟨And.left, fun h => ⟨h, ?_⟩⟩
  simp only [curve]
  by_cases hy : y = 0
  · refine .inl fun hzero => ?_
    have hx : x ≠ 0 := by
      rintro rfl
      refine char_ne_seven ?_
      rw [hy] at h
      linear_combination -h
    refine mul_ne_zero char_ne_three (pow_ne_zero 2 hx) ?_
    linear_combination -hzero
  · refine .inr fun hzero => mul_ne_zero char_ne_two hy ?_
    linear_combination hzero

theorem residue_cubic (x : Element) :
    residue (cubic x) = residue x * residue x * residue x + 7 := by
  have hseven : residue (element 7) = 7 := by
    rw [element, Modular.residue_ofNat]
    norm_num
  rw [cubic, Modular.residue_add, Modular.residue_mul, Modular.residue_mul, hseven]

/-- Coordinates are those of a point exactly if they are on the curve. -/
theorem onCurve_iff {x y : Element} :
    y * y = cubic x ↔ curve.Nonsingular (residue x) (residue y) := by
  rw [nonsingular_iff, ← residue_cubic, ← Modular.residue_mul]
  exact Modular.residue_injective.eq_iff.symm

/-- A point as an element of the group. -/
def toGroup : Option Point → curve.Point
  | none => 0
  | some p => .some (residue p.x) (residue p.y) (onCurve_iff.mp p.onCurve)

theorem toGroup_of? {x y : Element} (h : curve.Nonsingular (residue x) (residue y)) :
    toGroup (Point.of? x y) = .some _ _ h := by
  rw [Point.of?, dif_pos (onCurve_iff.mpr h)]
  rfl

theorem toGroup_injective : Function.Injective toGroup := by
  intro p q h
  cases p with
  | none =>
    cases q with
    | none => rfl
    | some q => exact absurd h.symm (WeierstrassCurve.Affine.Point.some_ne_zero _)
  | some p =>
    cases q with
    | none => exact absurd h (WeierstrassCurve.Affine.Point.some_ne_zero _)
    | some q =>
      obtain ⟨px, py, hp⟩ := p
      obtain ⟨qx, qy, hq⟩ := q
      obtain ⟨hx, hy⟩ := WeierstrassCurve.Affine.Point.some.inj h
      obtain rfl := Modular.residue_injective hx
      obtain rfl := Modular.residue_injective hy
      rfl

/-! ## Sums -/

/-- The third point on the line of the right slope is the sum. -/
theorem toGroup_third? {p q : Point} {slope : Element}
    (hslope : residue slope =
      curve.slope (residue p.x) (residue q.x) (residue p.y) (residue q.y))
    (hne : ¬(residue p.x = residue q.x ∧ residue p.y = curve.negY (residue q.x) (residue q.y))) :
    toGroup (Point.third? slope p q) = toGroup (some p) + toGroup (some q) := by
  have hsum := WeierstrassCurve.Affine.nonsingular_add (onCurve_iff.mp p.onCurve)
    (onCurve_iff.mp q.onCurve) hne
  have hx : residue (slope * slope - p.x - q.x) =
      curve.addX (residue p.x) (residue q.x) (residue slope) := by
    simp only [WeierstrassCurve.Affine.addX, curve, Modular.residue_sub, Modular.residue_mul]
    ring
  have hy : residue (slope * (p.x - (slope * slope - p.x - q.x)) - p.y) =
      curve.addY (residue p.x) (residue q.x) (residue p.y) (residue slope) := by
    rw [WeierstrassCurve.Affine.addY, negY, WeierstrassCurve.Affine.negAddY, ← hx]
    simp only [Modular.residue_sub, Modular.residue_mul]
    ring
  have hns : curve.Nonsingular (residue (slope * slope - p.x - q.x))
      (residue (slope * (p.x - (slope * slope - p.x - q.x)) - p.y)) := by
    rw [hx, hy, hslope]
    exact hsum
  calc toGroup (Point.third? slope p q) = .some _ _ hns := toGroup_of? hns
    _ = .some _ _ hsum := by
        rw [WeierstrassCurve.Affine.Point.some.injEq, hx, hy, hslope]
        exact ⟨rfl, rfl⟩
    _ = toGroup (some p) + toGroup (some q) :=
        (WeierstrassCurve.Affine.Point.add_some hne).symm

/-- With slope zero there is no third point on the line through a point with `y = 0`. -/
theorem toGroup_third?_eq_zero {p : Point} {slope : Element} (hy : residue p.y = 0)
    (hslope : residue slope = 0) : toGroup (Point.third? slope p p) = 0 := by
  have hoff : ¬(slope * (p.x - (slope * slope - p.x - p.x)) - p.y) *
      (slope * (p.x - (slope * slope - p.x - p.x)) - p.y) =
        cubic (slope * slope - p.x - p.x) := by
    intro h
    have hthird := congrArg residue h
    have hp := nonsingular_iff.mp (onCurve_iff.mp p.onCurve)
    simp only [residue_cubic, Modular.residue_sub, Modular.residue_mul, hslope, hy] at hthird hp
    refine mul_ne_zero (pow_ne_zero 2 char_ne_three) char_ne_seven ?_
    linear_combination -8 * hp - hthird
  rw [Point.third?, Point.of?, dif_neg hoff]
  rfl

/-- Twice a point. -/
theorem toGroup_double (p : Point) :
    toGroup p.double = toGroup (some p) + toGroup (some p) := by
  have hslope : residue (element 3 * (p.x * p.x) * Modular.inverse (element 2 * p.y)) =
      3 * (residue p.x * residue p.x) * (2 * residue p.y)⁻¹ := by
    have htwo : residue (element 2) = 2 := by
      rw [element, Modular.residue_ofNat]
      norm_num
    have hthree : residue (element 3) = 3 := by
      rw [element, Modular.residue_ofNat]
      norm_num
    rw [Modular.residue_mul, Modular.residue_mul, Modular.residue_mul,
      Modular.residue_inverse (by decide), Modular.residue_mul, htwo, hthree]
  by_cases hy : residue p.y = 0
  · rw [Point.double, toGroup_third?_eq_zero hy (by rw [hslope, hy, mul_zero, inv_zero, mul_zero])]
    refine (WeierstrassCurve.Affine.Point.add_self_of_Y_eq ?_).symm
    rw [negY, hy, neg_zero]
  · have hne : residue p.y ≠ curve.negY (residue p.x) (residue p.y) := by
      rw [negY]
      intro h
      refine mul_ne_zero char_ne_two hy ?_
      linear_combination h
    refine toGroup_third? ?_ fun h => hne h.2
    rw [hslope, WeierstrassCurve.Affine.slope_of_Y_ne rfl hne, negY, sub_neg_eq_add, ← two_mul,
      div_eq_mul_inv]
    simp only [curve]
    ring

/-- **Adding points is adding in the group.** -/
theorem toGroup_sum (p q : Option Point) : toGroup (sum p q) = toGroup p + toGroup q := by
  cases p with
  | none => exact (zero_add _).symm
  | some p =>
    cases q with
    | none => exact (add_zero _).symm
    | some q =>
      show toGroup (p.add q) = _
      rw [Point.add]
      split
      · next hx =>
        split
        · next hy =>
          obtain rfl : p = q := by
            cases p
            cases q
            cases hx
            cases hy
            rfl
          exact toGroup_double p
        · next hy =>
          have hxres : residue p.x = residue q.x := congrArg residue hx
          have hyres : residue p.y ≠ residue q.y := fun h => hy (Modular.residue_injective h)
          have hopposite : residue p.y = curve.negY (residue q.x) (residue q.y) :=
            (WeierstrassCurve.Affine.Y_eq_of_X_eq (onCurve_iff.mp p.onCurve).1
              (onCurve_iff.mp q.onCurve).1 hxres).resolve_left hyres
          exact (WeierstrassCurve.Affine.Point.add_of_Y_eq hxres hopposite).symm
      · next hx =>
        have hne : residue p.x ≠ residue q.x := fun h => hx (Modular.residue_injective h)
        refine toGroup_third? ?_ fun h => hne h.1
        rw [WeierstrassCurve.Affine.slope_of_X_ne hne, Modular.residue_mul,
          Modular.residue_inverse (by decide), Modular.residue_sub, Modular.residue_sub,
          ← div_eq_mul_inv, ← neg_sub, ← neg_sub (residue p.x), neg_div_neg_eq]

/-! ## Multiples -/

theorem toGroup_multipleOnto (p : Point) (bits : List Bool) :
    ∀ total : Option Point, ∀ factor : ℕ, toGroup total = factor • toGroup (some p) →
      toGroup (p.multipleOnto bits total) =
        Modular.appendBits factor bits • toGroup (some p) := by
  induction bits with
  | nil => exact fun _ _ h => h
  | cons bit bits ih =>
    intro total factor h
    refine ih _ _ ?_
    have htwice : toGroup (sum total total) = (2 * factor) • toGroup (some p) := by
      rw [toGroup_sum, h, two_mul, add_smul]
    cases bit with
    | false => exact htwice
    | true =>
      show toGroup (sum (sum total total) (some p)) = (2 * factor + 1) • toGroup (some p)
      rw [toGroup_sum, htwice, succ_nsmul]

/-- **A multiple of a point is its multiple in the group.** -/
theorem toGroup_multiple (p : Point) {k : ℕ} (h : k < 2 ^ 256) :
    toGroup (p.multiple k) = k • toGroup (some p) := by
  rw [Point.multiple, toGroup_multipleOnto p _ none 0 (zero_nsmul _).symm,
    Modular.appendBits_bits_of_lt h]

end SealedEnvelope.Secp256k1
