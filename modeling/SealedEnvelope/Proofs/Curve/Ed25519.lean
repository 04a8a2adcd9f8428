import SealedEnvelope.Curve.Ed25519
import SealedEnvelope.Proofs.Curve.Edwards
import SealedEnvelope.Proofs.Curve.X25519

/-!
# Public keys of Ed25519 secrets

The octets of a public key have to stand for a point.  The octets that are computed for a secret
do, because they are those of a multiple of the base point: sums of points are points
(`Point.OnCurve.add`), so all multiples are (`Point.OnCurve.multiple`), and the octets of a point
stand for it (`isPoint_toBytes`).  So the check that `publicKey` makes never fails
(`ofOctets?_publicOctets`), and its substitute is never used.
-/

namespace SealedEnvelope.Ed25519

open Field25519 (Element element)
open SealedEnvelope.Modular (residue)

/-- The field of the curve. -/
abbrev F : Type := X25519.F

theorem residue_element (n : ℕ) : residue (element n) = (n : F) :=
  Modular.residue_ofNat n

/-- The coefficient of the curve is no square, which the addition of points needs. -/
theorem not_isSquare_coefficient : ¬IsSquare (residue coefficient : F) := by
  rw [← Modular.isSquare_iff (by decide)]
  decide +kernel

/-- There is a root of `-1`, which the addition of points needs as well. -/
theorem exists_sq_eq_neg_one : ∃ i : F, i ^ 2 = -1 := by
  have hsquare : Modular.isSquare (element 0 - element 1) = true := by decide +kernel
  obtain ⟨i, hi⟩ := (Modular.isSquare_iff (by decide) _).mp hsquare
  refine ⟨i, ?_⟩
  rw [sq, ← hi, Modular.residue_sub, residue_element, residue_element]
  norm_num

namespace Point

/-- The quotients are the coordinates of a point on the curve. -/
def OnCurve (p : Point) : Prop :=
  ∃ x y : F, Edwards.OnCurve (residue coefficient) x y ∧ residue p.z ≠ 0 ∧
    residue p.x = x * residue p.z ∧ residue p.y = y * residue p.z

theorem OnCurve.zero : Point.zero.OnCurve := by
  refine ⟨0, 1, Edwards.onCurve_zero_one, ?_, ?_, ?_⟩ <;> simp [Point.zero, residue_element]

/-- The coordinates of a sum, from the quotients that the points stand for: those of the addition
law times one factor. -/
theorem residue_add {p q : Point} {x₁ y₁ x₂ y₂ : F} (hx₁ : residue p.x = x₁ * residue p.z)
    (hy₁ : residue p.y = y₁ * residue p.z) (hx₂ : residue q.x = x₂ * residue q.z)
    (hy₂ : residue q.y = y₂ * residue q.z) :
    let plus := 1 + residue coefficient * x₁ * x₂ * y₁ * y₂
    let minus := 1 - residue coefficient * x₁ * x₂ * y₁ * y₂
    let factor := (residue p.z * residue q.z) ^ 4
    residue (p.add q).x = factor * minus * (x₁ * y₂ + y₁ * x₂) ∧
      residue (p.add q).y = factor * plus * (y₁ * y₂ + x₁ * x₂) ∧
      residue (p.add q).z = factor * minus * plus := by
  simp only [Point.add, Modular.residue_mul, Modular.residue_add, Modular.residue_sub, hx₁, hx₂,
    hy₁, hy₂]
  refine ⟨?_, ?_, ?_⟩ <;> ring

/-- **The sum of two points is a point.** -/
theorem OnCurve.add {p q : Point} (hp : p.OnCurve) (hq : q.OnCurve) : (p.add q).OnCurve := by
  obtain ⟨x₁, y₁, h₁, hz₁, hx₁, hy₁⟩ := hp
  obtain ⟨x₂, y₂, h₂, hz₂, hx₂, hy₂⟩ := hq
  obtain ⟨i, hi⟩ := exists_sq_eq_neg_one
  obtain ⟨hplus, hminus⟩ :=
    h₁.denominators_ne_zero hi X25519.char_ne_two not_isSquare_coefficient h₂
  obtain ⟨x, hsumx⟩ :
      ∃ x, x * (1 + residue coefficient * x₁ * x₂ * y₁ * y₂) = x₁ * y₂ + y₁ * x₂ :=
    ⟨_, div_mul_cancel₀ _ hplus⟩
  obtain ⟨y, hsumy⟩ :
      ∃ y, y * (1 - residue coefficient * x₁ * x₂ * y₁ * y₂) = y₁ * y₂ + x₁ * x₂ :=
    ⟨_, div_mul_cancel₀ _ hminus⟩
  obtain ⟨hx, hy, hz⟩ := residue_add hx₁ hy₁ hx₂ hy₂
  refine ⟨x, y, h₁.add hplus hminus h₂ hsumx hsumy, ?_, ?_, ?_⟩
  · rw [hz]
    exact mul_ne_zero (mul_ne_zero (pow_ne_zero 4 (mul_ne_zero hz₁ hz₂)) hminus) hplus
  · rw [hx, hz, ← hsumx]
    ring
  · rw [hy, hz, ← hsumy]
    ring

/-- **The multiples of a point are points.** -/
theorem OnCurve.multiple {p sum : Point} (hp : p.OnCurve) (hsum : sum.OnCurve) (bits : List Bool) :
    (p.multiple bits sum).OnCurve := by
  induction bits generalizing sum with
  | nil => exact hsum
  | cons bit bits ih =>
    have htwice := hsum.add hsum
    cases bit with
    | false => exact ih htwice
    | true => exact ih (htwice.add hp)

theorem OnCurve.base : Point.base.OnCurve := by
  have hequation : Point.base.y * Point.base.y - Point.base.x * Point.base.x =
      element 1 + coefficient * (Point.base.x * Point.base.x) * (Point.base.y * Point.base.y) := by
    decide +kernel
  have hz : residue Point.base.z = 1 := by
    rw [Point.base, residue_element, Nat.cast_one]
  refine ⟨residue Point.base.x, residue Point.base.y, ?_, ?_, ?_, ?_⟩
  · have hresidue := congrArg residue hequation
    rw [Edwards.OnCurve]
    generalize Point.base.x = x at hresidue ⊢
    generalize Point.base.y = y at hresidue ⊢
    simp only [Modular.residue_sub, Modular.residue_add, Modular.residue_mul, residue_element,
      Nat.cast_one] at hresidue
    linear_combination hresidue
  · rw [hz]
    exact one_ne_zero
  · rw [hz, mul_one]
  · rw [hz, mul_one]

end Point

/-! ## Octets -/

/-- The element is read back from its octets, whatever the last bit is. -/
theorem ofBytes_ofNatLE (y : Element) {sign : ℕ} (hsign : sign < 2) :
    Field25519.ofBytes (Bytes.ofNatLE 32 (y.val + sign * Field25519.lastBit)) = y := by
  have hlt : y.val < Field25519.lastBit := Nat.lt_of_lt_of_le y.isLt (by decide)
  have hoctets : y.val + sign * Field25519.lastBit < 256 ^ 32 := by
    have hbits : 256 ^ 32 = 2 * Field25519.lastBit := by decide
    rw [hbits]
    have hle := Nat.mul_le_mul_right Field25519.lastBit (Nat.le_of_lt_succ hsign)
    omega
  refine Fin.ext ?_
  rw [Field25519.ofBytes, Bytes.toNatLE_ofNatLE, Nat.mod_eq_of_lt hoctets,
    Nat.add_mul_mod_self_right, Nat.mod_eq_of_lt hlt]
  exact Nat.mod_eq_of_lt y.isLt

/-- The octets of a point stand for a point. -/
theorem Point.OnCurve.isPoint_toBytes {p : Point} (h : p.OnCurve) : isPoint p.toBytes = true := by
  obtain ⟨x, y, hcurve, hz, -, hy⟩ := h
  have hquotient : residue (p.y * Modular.inverse p.z) = y := by
    rw [Modular.residue_mul, Modular.residue_inverse (by decide), hy, mul_assoc, mul_inv_cancel₀ hz,
      mul_one]
  rw [isPoint, Point.toBytes, ofBytes_ofNatLE _ (Nat.mod_lt _ (by decide)),
    Modular.isSquare_iff (by decide)]
  simp only [Modular.residue_mul (_ - _), Modular.residue_sub, Modular.residue_add,
    Modular.residue_mul coefficient, Modular.residue_mul (p.y * _), hquotient, residue_element,
    Nat.cast_one]
  -- the first factor is the second one times the square of `x`
  refine ⟨x * (residue coefficient * (y * y) + 1), ?_⟩
  rw [Edwards.OnCurve] at hcurve
  linear_combination (residue coefficient * (y * y) + 1) * hcurve

/-- **The octets that are computed for a secret are those of its public key**, and never need the
substitute. -/
theorem ofOctets?_publicOctets (secret : Octets 32) :
    PublicKey.ofOctets? (publicOctets secret) = some (publicKey secret) := by
  have hpoint : isPoint (publicOctets secret).val = true :=
    (Point.OnCurve.base.multiple .zero _).isPoint_toBytes
  have hsome : PublicKey.ofOctets? (publicOctets secret) = some ⟨publicOctets secret, hpoint⟩ :=
    dif_pos hpoint
  rw [publicKey, hsome, Option.getD_some]

end SealedEnvelope.Ed25519
