import SealedEnvelope.Proofs.Json.Numerals
import SealedEnvelope.Proofs.Positional

/-!
# Reading back an integer that was written

What is written of an integer is a numeral, and so it is read as far as it goes
(`numeral_integerChars`).  An integer in range fits 64 bits, so that none of its digits is left
out when the literal is evaluated (`absorb_of_lt`), and its text has no minus sign in front of a
zero.
-/

namespace SealedEnvelope

namespace Json

theorem utf8EncodeChar_digit {d : Nat} (h : d < 10) :
    String.utf8EncodeChar (Decimal.digit d) = [digitByte d] := by
  have : ∀ d : Fin 10, String.utf8EncodeChar (Decimal.digit d) = [digitByte d] := by
    decide +kernel
  exact this ⟨d, h⟩

/-- The digits that a natural number is written with. -/
def wholeDigits (n : Nat) : List Nat := if n = 0 then [0] else Positional.digits 10 n

theorem lt_of_mem_wholeDigits {n : Nat} : ∀ d ∈ wholeDigits n, d < 10 := by
  unfold wholeDigits
  split
  · simp
  · exact Positional.lt_of_mem_digits (by decide)

theorem value_wholeDigits (n : Nat) : Positional.value 10 (wholeDigits n) = n := by
  unfold wholeDigits
  split
  · next h => rw [h]; rfl
  · exact Positional.value_digits (by decide) n

theorem flatMap_naturalChars (n : Nat) :
    (Decimal.naturalChars n).flatMap String.utf8EncodeChar = digitBytes (wholeDigits n) := by
  have hmap : ∀ ds : List Nat, (∀ d ∈ ds, d < 10) →
      (ds.map Decimal.digit).flatMap String.utf8EncodeChar = digitBytes ds := by
    intro ds hds
    induction ds with
    | nil => rfl
    | cons d ds ih =>
      rw [List.map_cons, List.flatMap_cons, utf8EncodeChar_digit (hds d List.mem_cons_self),
        ih fun d hd => hds d (List.mem_cons_of_mem _ hd), List.singleton_append, digitBytes,
        digitBytes, List.map_cons]
  unfold Decimal.naturalChars wholeDigits
  split
  · rfl
  · exact hmap _ (Positional.lt_of_mem_digits (by decide))

/-- A zero is written as such, and leads no other number. -/
theorem wholeDigits_eq (n : Nat) :
    wholeDigits n = [0] ∨ ∃ d ds, wholeDigits n = (d + 1) :: ds := by
  unfold wholeDigits
  split
  · exact .inl rfl
  · next h =>
    obtain ⟨d, ds, heq, hd⟩ :=
      Positional.exists_digits_eq_cons (by decide : 2 ≤ 10) (Nat.pos_of_ne_zero h)
    obtain ⟨d, rfl⟩ := Nat.exists_eq_succ_of_ne_zero hd
    exact .inr ⟨d, ds, heq⟩

theorem isWhole_wholeDigits (n : Nat) : IsWhole (wholeDigits n) := by
  rcases wholeDigits_eq n with h | ⟨d, ds, h⟩
  · exact ⟨⟨by rw [h]; exact List.cons_ne_nil _ _, lt_of_mem_wholeDigits⟩, fun _ => h⟩
  · refine ⟨⟨by rw [h]; exact List.cons_ne_nil _ _, lt_of_mem_wholeDigits⟩, fun hzero => ?_⟩
    rw [h] at hzero
    cases hzero

/-- The spelling of an integer. -/
def integerLiteral (i : Int) : Literal := ⟨decide (i < 0), wholeDigits i.natAbs, [], none⟩

/-- What is written of an integer is a numeral. -/
theorem numeral_integerChars (i : Int) :
    Numeral (integerLiteral i) ((Decimal.integerChars i).flatMap String.utf8EncodeChar) := by
  have hwhole := isWhole_wholeDigits i.natAbs
  cases i with
  | ofNat n =>
    have hnumeral := Numeral.positive hwhole .absent .absent
    rw [List.append_nil, List.append_nil, ← flatMap_naturalChars] at hnumeral
    exact hnumeral
  | negSucc n =>
    have hnumeral := Numeral.negative hwhole .absent .absent
    rw [List.append_nil, List.append_nil, ← flatMap_naturalChars] at hnumeral
    rw [integerLiteral, decide_eq_true (Int.negSucc_lt_zero n)]
    exact hnumeral

/-! ## Evaluating a literal -/

/-- Digits are read as long as the number stays below its bound; here it does. -/
theorem absorb_of_lt {ds : List Nat} {n : Nat}
    (h : ds.foldl (fun n d => n * 10 + d) n < bound) :
    absorb n ds = (ds.foldl (fun n d => n * 10 + d) n, []) := by
  induction ds generalizing n with
  | nil => rfl
  | cons d ds ih =>
    have hle : ∀ (ds : List Nat) (n : Nat), n ≤ ds.foldl (fun n d => n * 10 + d) n := by
      intro ds
      induction ds with
      | nil =>
        intro n
        exact Nat.le_refl n
      | cons d ds ih =>
        intro n
        exact Nat.le_trans (by omega) (ih (n * 10 + d))
    rw [List.foldl_cons] at h ⊢
    rw [absorb, if_pos (Nat.lt_of_le_of_lt (hle ds _) h), ih h]

/-- **Reading undoes writing**: the spelling of an integer has the value of that
integer. -/
theorem Number.ofLiteral?_integerLiteral (whole : Whole) :
    Number.ofLiteral? (integerLiteral whole.value) = some (.integer whole) := by
  obtain ⟨i, hlow, hhigh⟩ := whole
  have hnat : i.natAbs < bound := by unfold least at hlow; unfold bound at hhigh ⊢; omega
  have hvalue : absorb 0 (wholeDigits i.natAbs) = (i.natAbs, []) := by
    have := value_wholeDigits i.natAbs
    unfold Positional.value at this
    rw [absorb_of_lt (this.symm ▸ hnat), this]
  have hsign : (if decide (i < 0) then -(i.natAbs : Int) else i.natAbs) = i := by
    split
    · next h => have := of_decide_eq_true h; omega
    · next h => have : ¬i < 0 := fun hlt => h (decide_eq_true hlt); omega
  have hzero : ¬((decide (i < 0)) = true ∧ i.natAbs = 0) := by
    rintro ⟨hneg, hnil⟩
    have := of_decide_eq_true hneg
    omega
  unfold Number.ofLiteral? integerLiteral
  dsimp only
  rw [hvalue]
  dsimp only
  rw [if_pos ⟨rfl, rfl, rfl⟩]
  simp only [hsign]
  rw [dif_pos ⟨⟨hlow, hhigh⟩, hzero⟩]

end Json
end SealedEnvelope
