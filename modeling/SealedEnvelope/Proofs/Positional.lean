import Mathlib.Data.List.Induction
import SealedEnvelope.Positional

/-!
# Positional numerals, there and back

A number has one numeral in each base that does not start with a zero.  `digits` gives this
one, and a numeral that starts with zeros loses them when it is read and written again
(`digits_value`).
-/

namespace SealedEnvelope.Positional

variable {base n : Nat}

/-- The digits of a number are below the base. -/
theorem lt_of_mem_digits (hb : 2 ≤ base) : ∀ d ∈ digits base n, d < base := by
  induction n using Nat.strongRecOn with
  | _ n ih =>
    rcases Nat.eq_zero_or_pos n with rfl | hn
    · simp
    · intro d hd
      rw [digits_of_pos hb hn, List.mem_append, List.mem_singleton] at hd
      rcases hd with hd | rfl
      · exact ih _ (Nat.div_lt_self hn hb) d hd
      · exact Nat.mod_lt _ (by omega)

/-- A positive number has digits, and the first one is not zero. -/
theorem exists_digits_eq_cons (hb : 2 ≤ base) (hn : 0 < n) :
    ∃ d ds, digits base n = d :: ds ∧ d ≠ 0 := by
  induction n using Nat.strongRecOn with
  | _ n ih =>
    rw [digits_of_pos hb hn]
    rcases Nat.eq_zero_or_pos (n / base) with hzero | hpos
    · refine ⟨n % base, [], by rw [hzero, digits_zero, List.nil_append], ?_⟩
      rw [Nat.mod_eq_of_lt (Nat.lt_of_div_eq_zero (by omega) hzero)]
      omega
    · obtain ⟨d, ds, heq, hd⟩ := ih _ (Nat.div_lt_self hn hb) hpos
      exact ⟨d, ds ++ [n % base], by rw [heq, List.cons_append], hd⟩

/-- No zeros stand in front of the digits of a number. -/
theorem takeWhile_digits (hb : 2 ≤ base) (n : Nat) : (digits base n).takeWhile (· == 0) = [] := by
  rcases Nat.eq_zero_or_pos n with rfl | hn
  · rw [digits_zero, List.takeWhile_nil]
  · obtain ⟨d, ds, heq, hd⟩ := exists_digits_eq_cons hb hn
    rw [heq, List.takeWhile_cons_of_neg (by simpa using hd)]

/-- Zeros in front of a numeral do not count. -/
theorem value_replicate_append (base count : Nat) (ds : List Nat) :
    value base (List.replicate count 0 ++ ds) = value base ds := by
  induction count with
  | zero => rfl
  | succ count ih =>
    rw [← ih, List.replicate_succ, List.cons_append]
    show List.foldl _ (0 * base + 0) _ = List.foldl _ 0 _
    rw [Nat.zero_mul]

/-- A last digit goes behind the digits of a number, unless there is nothing but zeros. -/
theorem digits_mul_add {d : Nat} (hd : d < base) (hb : 2 ≤ base) (hpos : 0 < n * base + d) :
    digits base (n * base + d) = digits base n ++ [d] := by
  have hquotient : (n * base + d) / base = n := by
    rw [Nat.add_comm, Nat.add_mul_div_right d n (by omega), Nat.div_eq_of_lt hd, Nat.zero_add]
  have hremainder : (n * base + d) % base = d := by
    rw [Nat.add_comm, Nat.add_mul_mod_self_right, Nat.mod_eq_of_lt hd]
  rw [digits_of_pos hb hpos, hquotient, hremainder]

/-- Writing the number of a numeral gives the numeral back, without the zeros in front. -/
theorem digits_value (hb : 2 ≤ base) {ds : List Nat} (hds : ∀ d ∈ ds, d < base) :
    digits base (value base ds) = ds.dropWhile (· == 0) := by
  -- From the right, since the last digit is what a division leaves.
  induction ds using List.reverseRecOn with
  | nil => exact digits_zero base
  | append_singleton front last ih =>
    have hlast : last < base := hds last (List.mem_append_right _ (List.mem_singleton_self last))
    have hfront := ih fun d hd => hds d (List.mem_append_left _ hd)
    rw [value_append_singleton, List.dropWhile_append, ← hfront]
    rcases Nat.eq_zero_or_pos (value base front) with hzero | hvalue
    · rw [hzero, Nat.zero_mul, Nat.zero_add, digits_zero, List.isEmpty_nil, if_pos rfl]
      rcases Nat.eq_zero_or_pos last with rfl | hpos
      · exact digits_zero base
      · rw [List.dropWhile_cons_of_neg (by simpa using Nat.pos_iff_ne_zero.1 hpos)]
        simpa using digits_mul_add (n := 0) hlast hb (by omega)
    · obtain ⟨d, ds, hdigits, -⟩ := exists_digits_eq_cons hb hvalue
      have hpos : 0 < value base front * base + last :=
        Nat.add_pos_left (Nat.mul_pos hvalue (by omega)) last
      rw [digits_mul_add hlast hb hpos, hdigits, List.isEmpty_cons, if_neg (by decide)]

end SealedEnvelope.Positional
