import Mathlib.Algebra.Ring.Nat
import SealedEnvelope.Curve.Modular

/-!
# The bits of a factor

Multiples and powers are computed bit by bit: with each bit the factor is doubled, and one
is added if the bit is set.  `Modular.appendBits` is what this makes of a number, and
`Modular.appendBits_bits` says that the bits of a number make that number again.
-/

namespace SealedEnvelope.Modular

/-- The number whose bits are those of `m` and then the given ones. -/
def appendBits (m : Nat) : List Bool → Nat
  | [] => m
  | bit :: bits => appendBits (2 * m + bit.toNat) bits

/-- The last `count` bits of a number, behind the bits of another one. -/
theorem appendBits_bits (count k m : Nat) :
    appendBits m (bits count k) = 2 ^ count * m + k % 2 ^ count := by
  induction count generalizing m with
  | zero => rw [bits, appendBits, Nat.pow_zero, Nat.one_mul, Nat.mod_one, Nat.add_zero]
  | succ count ih =>
    have hmod : k % 2 ^ (count + 1) = 2 ^ count * (k.testBit count).toNat + k % 2 ^ count := by
      rw [Nat.mod_pow_succ, Nat.add_comm, Nat.testBit_eq_decide_div_mod_eq]
      rcases Nat.mod_two_eq_zero_or_one (k / 2 ^ count) with h | h <;> rw [h] <;> rfl
    rw [bits, appendBits, ih, hmod, Nat.mul_add, Nat.pow_succ, Nat.mul_assoc, Nat.add_assoc]

/-- A number below `2 ^ count` is made up of its last `count` bits. -/
theorem appendBits_bits_of_lt {count k : Nat} (h : k < 2 ^ count) :
    appendBits 0 (bits count k) = k := by
  rw [appendBits_bits, Nat.mul_zero, Nat.zero_add, Nat.mod_eq_of_lt h]

end SealedEnvelope.Modular
