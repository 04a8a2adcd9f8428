/-!
# Positional numerals

The digits of a number in a base of two or more, the most significant first and
without leading zeros, so that zero has no digits.  Decimal texts and the
number-based text encodings are both written from these digits.
-/

namespace SealedEnvelope.Positional

/-- Puts the digits of `n` in front of `tail`. -/
def digitsOnto (base n : Nat) (tail : List Nat) : List Nat :=
  if _h : n = 0 ∨ base < 2 then tail
  else digitsOnto base (n / base) (n % base :: tail)
termination_by n
decreasing_by exact Nat.div_lt_self (by omega) (by omega)

/-- The digits of `n`, the most significant first; zero has none. -/
def digits (base n : Nat) : List Nat := digitsOnto base n []

/-- The number with the given digits, the most significant first. -/
def value (base : Nat) (ds : List Nat) : Nat := ds.foldl (fun n d => n * base + d) 0

@[simp] theorem digits_zero (base : Nat) : digits base 0 = [] := by
  simp [digits, digitsOnto]

@[simp] theorem value_nil (base : Nat) : value base [] = 0 := rfl

theorem value_append_singleton (base : Nat) (ds : List Nat) (d : Nat) :
    value base (ds ++ [d]) = value base ds * base + d := by
  simp [value]

theorem digitsOnto_eq_append (base n : Nat) (tail : List Nat) :
    digitsOnto base n tail = digits base n ++ tail := by
  induction n using Nat.strongRecOn generalizing tail with
  | _ n ih =>
    unfold digits
    rw [digitsOnto]
    split
    · next h => rw [digitsOnto, dif_pos h]; rfl
    · next h =>
      have smaller : n / base < n := Nat.div_lt_self (by omega) (by omega)
      rw [digitsOnto.eq_def base n [], dif_neg h, ih _ smaller, ih _ smaller [n % base]]
      simp

/-- The digits of a positive number are those of its quotient and then its
remainder. -/
theorem digits_of_pos {base n : Nat} (hb : 2 ≤ base) (hn : 0 < n) :
    digits base n = digits base (n / base) ++ [n % base] := by
  conv => lhs; unfold digits
  rw [digitsOnto, dif_neg (by omega), digitsOnto_eq_append]

/-- Reading the digits of a number gives the number. -/
theorem value_digits {base : Nat} (hb : 2 ≤ base) (n : Nat) : value base (digits base n) = n := by
  induction n using Nat.strongRecOn with
  | _ n ih =>
    rcases Nat.eq_zero_or_pos n with rfl | hn
    · simp
    · rw [digits_of_pos hb hn, value_append_singleton, ih _ (Nat.div_lt_self hn hb),
        Nat.mul_comm, Nat.div_add_mod]

end SealedEnvelope.Positional
