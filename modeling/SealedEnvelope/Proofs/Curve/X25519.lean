import SealedEnvelope.Curve.X25519
import SealedEnvelope.Proofs.Curve.Bits
import SealedEnvelope.Proofs.Curve.Montgomery
import SealedEnvelope.Proofs.Curve.Primality
import SealedEnvelope.Proofs.Curve.Residues
import SealedEnvelope.Proofs.Octets

/-!
# Agreement on X25519

What two keys agree on does not depend on which side computes it (`exchange_publicKey_comm`).
For this the ladder is related to the group of the curve's points: if `u` is the first
coordinate of a point then the ladder gives that of its multiples (`residue_multiple`).  A
public key is a multiple of the base point, so both sides compute the first coordinate of
the same multiple.

## Infinity and zero

Coordinates do not tell infinity from the point `(0, 0)`, since both are written as zero.
That does no harm: the multiples of `(0, 0)` are itself and infinity, so both of them only
have multiples that are written as zero.
-/

namespace SealedEnvelope.X25519

open Field25519 (Element element)
open SealedEnvelope.Modular (residue)
open WeierstrassCurve.Affine (Point)

/-- The field of the curve. -/
abbrev F : Type := ZMod (Field25519.greatest + 1)

instance : Fact (Field25519.greatest + 1).Prime := ⟨Primality.prime_field25519⟩

/-- The curve, as a group. -/
abbrev curve : WeierstrassCurve.Affine F := Montgomery.curve 486662

theorem char_ne_two : (2 : F) ≠ 0 := by
  have h : ((2 : ℕ) : F) ≠ 0 := Modular.natCast_ne_zero (by decide) (by decide)
  exact_mod_cast h

theorem coefficient_sq_ne : (486662 : F) ^ 2 ≠ 4 := by
  rw [Ne, ← sub_eq_zero]
  have h : ((486662 ^ 2 - 4 : ℕ) : F) ≠ 0 := Modular.natCast_ne_zero (by decide) (by decide)
  rw [Nat.cast_sub (by decide)] at h
  exact_mod_cast h

/-! ## The ladder -/

namespace Coordinate

/-- A coordinate of a point. -/
def Represents (c : Coordinate) (P : curve.Point) : Prop :=
  Montgomery.Represents (residue c.x) (residue c.z) P

theorem Represents.double {c : Coordinate} {P : curve.Point} (h : c.Represents P) :
    c.double.Represents (P + P) := by
  have hquarter : (4 : F) * residue (element 121665) = 486662 - 2 := by
    rw [element, Modular.residue_ofNat]
    norm_num
  exact Montgomery.Represents.double char_ne_two coefficient_sq_ne hquarter h

theorem Represents.add {u : Element} {v : F} {hns : curve.Nonsingular (residue u) v}
    {low high : Coordinate} {P Q : curve.Point} (hu : residue u ≠ 0)
    (hdifference : Q - P = Point.some (residue u) v hns) (hlow : low.Represents P)
    (hhigh : high.Represents Q) : (low.add u high).Represents (P + Q) :=
  Montgomery.Represents.add char_ne_two hu hdifference hlow hhigh

end Coordinate

/-- From neighbouring multiples of a point, the ladder goes to the multiple whose factor has
the given bits behind those of the first. -/
theorem represents_ladder {u : Element} {v : F} {hns : curve.Nonsingular (residue u) v}
    (hu : residue u ≠ 0) (bits : List Bool) {n : ℕ} {low high : Coordinate}
    (hlow : low.Represents (n • Point.some (residue u) v hns))
    (hhigh : high.Represents ((n + 1) • Point.some (residue u) v hns)) :
    (ladder u bits low high).Represents
      (Modular.appendBits n bits • Point.some (residue u) v hns) := by
  induction bits generalizing n low high with
  | nil => exact hlow
  | cons bit bits ih =>
    have hdifference : (n + 1) • Point.some (residue u) v hns - n • Point.some (residue u) v hns =
        Point.some (residue u) v hns := by
      rw [succ_nsmul, add_sub_cancel_left]
    have hmiddle := hlow.add hu hdifference hhigh
    rw [← add_nsmul, ← add_assoc, ← two_mul] at hmiddle
    have hhigh₂ := hhigh.double
    have hlow₂ := hlow.double
    rw [← add_nsmul, ← two_mul] at hhigh₂ hlow₂
    cases bit with
    | false => exact ih hlow₂ hmiddle
    | true => exact ih hmiddle hhigh₂

/-- Twice a coordinate that is written as zero is written as zero. -/
theorem double_zero {c : Coordinate} (h : residue c.x * residue c.z = 0) :
    residue c.double.x * residue c.double.z = 0 := by
  have hsquares : (residue c.x + residue c.z) * (residue c.x + residue c.z) -
      (residue c.x - residue c.z) * (residue c.x - residue c.z) = 0 := by
    linear_combination 4 * h
  have hz : ∃ factor : F, residue c.double.z =
      ((residue c.x + residue c.z) * (residue c.x + residue c.z) -
        (residue c.x - residue c.z) * (residue c.x - residue c.z)) * factor := ⟨_, rfl⟩
  obtain ⟨factor, hz⟩ := hz
  rw [hz, hsquares, zero_mul, mul_zero]

/-- From coordinates that are written as zero, the ladder for zero goes to such ones. -/
theorem ladder_zero (bits : List Bool) {low high : Coordinate}
    (h : residue low.x * residue low.z = 0) :
    residue (ladder (element 0) bits low high).x * residue (ladder (element 0) bits low high).z =
      0 := by
  induction bits generalizing low high with
  | nil => exact h
  | cons bit bits ih =>
    have hmiddle : residue (low.add (element 0) high).x * residue (low.add (element 0) high).z =
        0 := by
      rw [Coordinate.add, Modular.residue_mul (element 0), element, Modular.residue_ofNat,
        Nat.cast_zero, zero_mul, mul_zero]
    have hdouble := double_zero h
    cases bit with
    | false => exact ih hdouble
    | true => exact ih hmiddle

/-! ## Multiples -/

/-- The first coordinate of a point, with zero for infinity. -/
def firstCoordinate : curve.Point → F
  | .zero => 0
  | .some x _ _ => x

theorem Coordinate.Represents.quotient {c : Coordinate} {P : curve.Point} (h : c.Represents P) :
    residue c.x * (residue c.z)⁻¹ = firstCoordinate P := by
  cases P with
  | zero =>
    obtain ⟨-, hz⟩ := h
    rw [hz, inv_zero, mul_zero]
    rfl
  | some x y hns =>
    obtain ⟨hz, hx⟩ := h
    rw [hx, mul_assoc, mul_inv_cancel₀ hz, mul_one]
    rfl

/-- The multiples of a point that is written as zero are written as zero. -/
theorem firstCoordinate_nsmul_eq_zero {Q : curve.Point} (h : firstCoordinate Q = 0) (n : ℕ) :
    firstCoordinate (n • Q) = 0 := by
  have hdouble : Q + Q = 0 := by
    cases Q with
    | zero => rfl
    | some x y hns =>
      have hx : x = 0 := h
      have hsquare : y ^ 2 = 0 := by
        rw [Montgomery.equation hns, hx]
        ring
      exact Montgomery.add_self_of_eq_zero hns (pow_eq_zero_iff two_ne_zero |>.mp hsquare)
  have hmultiple : n • Q = 0 ∨ n • Q = Q := by
    induction n with
    | zero => exact .inl (zero_nsmul Q)
    | succ n ih =>
      rw [succ_nsmul]
      rcases ih with ih | ih
      · exact .inr (by rw [ih, zero_add])
      · exact .inl (by rw [ih, hdouble])
  rcases hmultiple with h' | h'
  · rw [h']
    rfl
  · rw [h', h]

/-- **The ladder computes multiples**: the first coordinate of a multiple is had from the
first coordinate of the point. -/
theorem residue_multiple (k : ℕ) {u : Element} {Q : curve.Point}
    (h : firstCoordinate Q = residue u) :
    residue (multiple k u) = firstCoordinate ((k % 2 ^ 255) • Q) := by
  have hquotient : residue (multiple k u) =
      residue (ladder u (Modular.bits 255 k) ⟨element 1, element 0⟩ ⟨u, element 1⟩).x *
        (residue (ladder u (Modular.bits 255 k) ⟨element 1, element 0⟩ ⟨u, element 1⟩).z)⁻¹ := by
    rw [multiple, Modular.residue_mul, Modular.residue_inverse (by decide)]
  have hzero : residue (element 0) = 0 := by
    rw [element, Modular.residue_ofNat, Nat.cast_zero]
  have hone : residue (element 1) = 1 := by
    rw [element, Modular.residue_ofNat, Nat.cast_one]
  rw [hquotient]
  by_cases hu : residue u = 0
  · obtain rfl : u = element 0 := Modular.residue_injective (hu.trans hzero.symm)
    rw [firstCoordinate_nsmul_eq_zero (h.trans hu)]
    have hstart : residue (⟨element 1, element 0⟩ : Coordinate).x *
        residue (⟨element 1, element 0⟩ : Coordinate).z = 0 := by
      rw [hzero, mul_zero]
    rcases mul_eq_zero.mp (ladder_zero (Modular.bits 255 k) hstart) with hx | hz
    · rw [hx, zero_mul]
    · rw [hz, inv_zero, mul_zero]
  · cases Q with
    | zero => exact absurd h.symm hu
    | some x v hns =>
      have hx : x = residue u := h
      obtain ⟨hns, hpoint⟩ : ∃ hns', Point.some x v hns = Point.some (residue u) v hns' :=
        ⟨hx ▸ hns, by rw [Point.some.injEq]; exact ⟨hx, rfl⟩⟩
      rw [hpoint]
      have hlow : (⟨element 1, element 0⟩ : Coordinate).Represents
          (0 • Point.some (residue u) v hns) := by
        rw [zero_nsmul]
        exact ⟨hone ▸ one_ne_zero, hzero⟩
      have hhigh : (⟨u, element 1⟩ : Coordinate).Represents
          ((0 + 1) • Point.some (residue u) v hns) := by
        rw [zero_add, one_nsmul]
        exact ⟨hone ▸ one_ne_zero, by rw [hone, mul_one]⟩
      have hladder := represents_ladder hu (Modular.bits 255 k) hlow hhigh
      rw [hladder.quotient, Modular.appendBits_bits, mul_zero, zero_add]

/-! ## The base point -/

/-- The second coordinate of the base point. -/
def baseY : ℕ := 14781619447589544791020593568409986887264606134616475288964881837755586237401

/-- The base point is on the curve. -/
theorem nonsingular_base : curve.Nonsingular (residue basePoint) (baseY : F) := by
  have hbase : residue basePoint = ((9 : ℕ) : F) := Modular.residue_ofNat 9
  rw [hbase, WeierstrassCurve.Affine.nonsingular_iff, WeierstrassCurve.Affine.equation_iff]
  simp only [curve, Montgomery.curve]
  constructor
  · have hmod : ((baseY * baseY : ℕ) : F) = ((9 ^ 3 + 486662 * 9 ^ 2 + 9 : ℕ) : F) :=
      (ZMod.natCast_eq_natCast_iff' _ _ _).mpr (by decide +kernel)
    push_cast at hmod ⊢
    linear_combination hmod
  · refine .inr fun h => ?_
    have hne : (baseY : F) ≠ 0 := Modular.natCast_ne_zero (by decide) (by decide)
    refine mul_ne_zero char_ne_two hne ?_
    linear_combination h

/-- The base point. -/
def base : curve.Point := .some _ _ nonsingular_base

theorem factor_lt (secret : Octets 32) : factor secret < 2 ^ 255 := by
  simp only [factor, Field25519.clamp, Field25519.lastBit]
  omega

/-- The coordinate of a public key is that of a multiple of the base point. -/
theorem firstCoordinate_factor_base (secret : Octets 32) :
    firstCoordinate (factor secret • base) = residue (multiple (factor secret) basePoint) := by
  rw [residue_multiple (factor secret) (show firstCoordinate base = residue basePoint from rfl),
    Nat.mod_eq_of_lt (factor_lt secret)]

/-! ## Agreement -/

/-- An element is read back from its octets. -/
theorem ofBytes_toBytes (x : Element) : Field25519.ofBytes (Field25519.toBytes x) = x := by
  have hlt : x.val < Field25519.lastBit := Nat.lt_of_lt_of_le x.isLt (by decide)
  have hoctets : x.val < 256 ^ 32 := Nat.lt_of_lt_of_le x.isLt (by decide)
  refine Fin.ext ?_
  rw [Field25519.ofBytes, Field25519.toBytes, Bytes.toNatLE_ofNatLE, Nat.mod_eq_of_lt hoctets,
    Nat.mod_eq_of_lt hlt]
  exact Nat.mod_eq_of_lt x.isLt

/-- **Both sides agree**: a secret makes of another one's public key what that one makes of
its own. -/
theorem exchange_publicKey_comm (a b : Octets 32) :
    exchange a (publicKey b) = exchange b (publicKey a) := by
  have hmultiple : ∀ s t : Octets 32,
      residue (multiple (factor s) (multiple (factor t) basePoint)) =
        firstCoordinate ((factor s * factor t) • base) := by
    intro s t
    rw [residue_multiple (factor s) (firstCoordinate_factor_base t),
      Nat.mod_eq_of_lt (factor_lt s), mul_nsmul']
  refine Subtype.ext ?_
  rw [exchange, exchange, publicKey, publicKey]
  dsimp only
  rw [ofBytes_toBytes, ofBytes_toBytes]
  refine congrArg Field25519.toBytes (Modular.residue_injective ?_)
  rw [hmultiple, hmultiple, mul_comm]

theorem agree?_publicKey_comm (a b : Octets 32) :
    agree? a (publicKey b) = agree? b (publicKey a) := by
  rw [agree?, agree?, exchange_publicKey_comm]

end SealedEnvelope.X25519
