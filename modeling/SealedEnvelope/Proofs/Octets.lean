import Mathlib.Algebra.Ring.Nat
import Mathlib.Data.List.Induction
import SealedEnvelope.Bytes

/-!
# Numbers in a fixed number of octets, there and back

A number is read back from its octets as far as they hold it, in either order.  With the most
significant octet first, octets are also written back from their number (`ofNatBE_toNatBE`).
-/

namespace SealedEnvelope.Bytes

/-- The last octet of a number, and what is left of it. -/
theorem mod_pow_succ (n width : Nat) :
    n % 256 ^ (width + 1) = n % 256 + 256 * (n / 256 % 256 ^ width) := by
  rw [Nat.pow_succ', Nat.mod_mul]

theorem toNatLE_ofNatLE (width n : Nat) : toNatLE (ofNatLE width n) = n % 256 ^ width := by
  induction width generalizing n with
  | zero => rw [ofNatLE, toNatLE, Nat.pow_zero, Nat.mod_one]
  | succ width ih =>
    rw [ofNatLE, toNatLE, ih, UInt8.toNat_ofNat', mod_pow_succ]

theorem toNatBE_ofNatBE (width n : Nat) : toNatBE (ofNatBE width n) = n % 256 ^ width := by
  have hfold : ∀ (width m : Nat),
      (ofNatBE width n).foldl (fun n b => n * 256 + b.toNat) m =
        m * 256 ^ width + n % 256 ^ width := by
    intro width
    induction width with
    | zero => intro m; rw [ofNatBE, List.foldl_nil, Nat.pow_zero, Nat.mul_one, Nat.mod_one]; rfl
    | succ width ih =>
      intro m
      have hpow : 256 ^ width = 2 ^ (8 * width) := by rw [Nat.pow_mul]
      have hbyte : (UInt8.ofNat (n >>> (8 * width))).toNat = n / 256 ^ width % 256 := by
        rw [UInt8.toNat_ofNat', Nat.shiftRight_eq_div_pow, ← hpow]
      rw [ofNatBE, List.foldl_cons, ih, hbyte, Nat.pow_succ, Nat.mod_mul, Nat.add_mul,
        Nat.mul_assoc, Nat.mul_comm 256, Nat.mul_comm (n / 256 ^ width % 256)]
      omega
  have h := hfold width 0
  rw [Nat.zero_mul, Nat.zero_add] at h
  exact h

/-- Numbers that the octets hold are told apart by them. -/
theorem ofNatBE_inj {width m n : Nat} (hm : m < 256 ^ width) (hn : n < 256 ^ width)
    (h : ofNatBE width m = ofNatBE width n) : m = n := by
  have hread := congrArg toNatBE h
  rwa [toNatBE_ofNatBE, toNatBE_ofNatBE, Nat.mod_eq_of_lt hm, Nat.mod_eq_of_lt hn] at hread

theorem toNatBE_append_singleton (bytes : Bytes) (b : UInt8) :
    toNatBE (bytes ++ [b]) = toNatBE bytes * 256 + b.toNat := by
  rw [toNatBE, List.foldl_append]
  rfl

theorem toNatBE_lt (bytes : Bytes) : toNatBE bytes < 256 ^ bytes.length := by
  induction bytes using List.reverseRecOn with
  | nil => exact Nat.one_pos
  | append_singleton front last ih =>
    have hlast := last.toNat_lt
    rw [toNatBE_append_singleton, List.length_append, List.length_singleton, Nat.pow_succ]
    omega

/-- Octets of one length are told apart by their number. -/
theorem eq_of_toNatBE_eq {a b : Bytes} (hlength : a.length = b.length)
    (h : toNatBE a = toNatBE b) : a = b := by
  induction a using List.reverseRecOn generalizing b with
  | nil => exact (List.length_eq_zero_iff.1 hlength.symm).symm
  | append_singleton front last ih =>
    rcases List.eq_nil_or_concat b with rfl | ⟨front', last', rfl⟩
    · simp at hlength
    · have hlast := last.toNat_lt
      have hlast' := last'.toNat_lt
      rw [List.concat_eq_append, toNatBE_append_singleton, toNatBE_append_singleton] at h
      have hfront : front = front' := ih (by simpa using hlength) (by omega)
      have hsame : last = last' := UInt8.toNat_inj.1 (by omega)
      rw [hfront, hsame, List.concat_eq_append]

/-- Octets are written back from their number. -/
theorem ofNatBE_toNatBE (bytes : Bytes) : ofNatBE bytes.length (toNatBE bytes) = bytes := by
  refine eq_of_toNatBE_eq (length_ofNatBE _ _) ?_
  rw [toNatBE_ofNatBE, Nat.mod_eq_of_lt (toNatBE_lt bytes)]

end SealedEnvelope.Bytes
