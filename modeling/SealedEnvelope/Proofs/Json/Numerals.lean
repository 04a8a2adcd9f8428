import SealedEnvelope.Json.Scan.Numeral

/-!
# How a number is spelled

The grammar of numbers, said without reference to how they are read (`Numeral`): an optional
minus, digits without a leading zero, an optional fraction and an optional exponent.

A text that starts with a number is cut into the literal and the rest exactly as the grammar says
(`readLiteral?_append`, `exists_numeral`).  Only where the number ends the grammar does not decide:
all digits are read, so what follows must not be an octet with which the number could go on
(`Ends`).
-/

namespace SealedEnvelope.Json

/-! ## Digits -/

/-- The octet of a decimal digit. -/
def digitByte (d : Nat) : UInt8 := UInt8.ofNat (48 + d)

/-- The octets of digits. -/
def digitBytes (ds : List Nat) : Bytes := ds.map digitByte

theorem decimalDigit?_digitByte {d : Nat} (h : d < 10) : decimalDigit? (digitByte d) = some d := by
  have : ∀ d : Fin 10, decimalDigit? (digitByte d) = some d.val := by decide +kernel
  exact this ⟨d, h⟩

theorem decimalDigit?_eq_some {byte : UInt8} {d : Nat} (h : decimalDigit? byte = some d) :
    d < 10 ∧ byte = digitByte d := by
  unfold decimalDigit? at h
  split at h
  · next hrange =>
    cases h
    have hlow : 48 ≤ byte.toNat := UInt8.le_iff_toNat_le.1 hrange.1
    have hhigh : byte.toNat ≤ 57 := UInt8.le_iff_toNat_le.1 hrange.2
    refine ⟨by omega, ?_⟩
    rw [digitByte, Nat.add_sub_cancel' hlow, UInt8.ofNat_toNat]
  · cases h

theorem digitByte_ne {d : Nat} (h : d < 10) {byte : UInt8} (hbyte : decimalDigit? byte = none) :
    digitByte d ≠ byte := by
  rintro rfl
  rw [decimalDigit?_digitByte h] at hbyte
  cases hbyte

/-- The text does not go on with a digit. -/
def NoDigit (rest : Bytes) : Prop := ∀ byte ∈ rest.head?, decimalDigit? byte = none

theorem noDigit_cons {byte : UInt8} (h : decimalDigit? byte = none) (rest : Bytes) :
    NoDigit (byte :: rest) := by
  rintro _ ⟨⟩
  exact h

/-- The text does not go on with an octet that could belong to a number in front of it. -/
def Ends (rest : Bytes) : Prop :=
  ∀ byte ∈ rest.head?, decimalDigit? byte = none ∧ byte ≠ 0x2e ∧ byte ≠ 0x65 ∧ byte ≠ 0x45

theorem Ends.noDigit {rest : Bytes} (h : Ends rest) : NoDigit rest :=
  fun byte hmem => (h byte hmem).1

/-- Digits are read as far as they go. -/
theorem readDigits_append {ds : List Nat} (hds : ∀ d ∈ ds, d < 10) {rest : Bytes}
    (hrest : NoDigit rest) : readDigits (digitBytes ds ++ rest) = (ds, rest) := by
  induction ds with
  | nil =>
    cases rest with
    | nil => rfl
    | cons byte rest =>
      have hnone : decimalDigit? byte = none := hrest byte rfl
      rw [digitBytes, List.map_nil, List.nil_append, readDigits, hnone]
  | cons d ds ih =>
    have hds' : ∀ d ∈ ds, d < 10 := fun d hd => hds d (List.mem_cons_of_mem _ hd)
    rw [digitBytes, List.map_cons, List.cons_append, readDigits,
      decimalDigit?_digitByte (hds d List.mem_cons_self)]
    dsimp only
    rw [← digitBytes, ih hds']

/-- What is read as digits are digits. -/
theorem readDigits_sound (text : Bytes) :
    text = digitBytes (readDigits text).1 ++ (readDigits text).2 ∧
      ∀ d ∈ (readDigits text).1, d < 10 := by
  induction text with
  | nil => exact ⟨rfl, List.forall_mem_nil _⟩
  | cons byte rest ih =>
    unfold readDigits
    cases hdigit : decimalDigit? byte with
    | none => exact ⟨rfl, List.forall_mem_nil _⟩
    | some d =>
      obtain ⟨hlt, rfl⟩ := decimalDigit?_eq_some hdigit
      obtain ⟨htext, hds⟩ := ih
      exact ⟨congrArg (digitByte d :: ·) htext, List.forall_mem_cons.2 ⟨hlt, hds⟩⟩

/-! ## The grammar -/

/-- At least one digit. -/
structure IsDigits (ds : List Nat) : Prop where
  ne_nil : ds ≠ []
  lt : ∀ d ∈ ds, d < 10

/-- The digits in front of the point, of which a zero stands alone. -/
structure IsWhole (ds : List Nat) : Prop extends IsDigits ds where
  zero_alone : ds.head? = some 0 → ds = [0]

/-- A fraction, which may be absent. -/
inductive Fraction : List Nat → Bytes → Prop
  | absent : Fraction [] []
  | point {ds : List Nat} (h : IsDigits ds) : Fraction ds (0x2e :: digitBytes ds)

/-- The sign of an exponent: whether it is negative. -/
inductive Sign : Bool → Bytes → Prop
  | absent : Sign false []
  | plus : Sign false [0x2b]
  | minus : Sign true [0x2d]

/-- An exponent, which may be absent. -/
inductive Exponent : Option Int → Bytes → Prop
  | absent : Exponent none []
  | power {letter : UInt8} {negative : Bool} {sign : Bytes} {ds : List Nat}
      (hletter : letter = 0x65 ∨ letter = 0x45) (hsign : Sign negative sign) (h : IsDigits ds) :
      Exponent (some (if negative then -(Positional.value 10 ds : Int) else Positional.value 10 ds))
        (letter :: (sign ++ digitBytes ds))

/-- A number. -/
inductive Numeral : Literal → Bytes → Prop
  | positive {whole fraction : List Nat} {exponent : Option Int} {behind power : Bytes}
      (hwhole : IsWhole whole) (hfraction : Fraction fraction behind)
      (hexponent : Exponent exponent power) :
      Numeral ⟨false, whole, fraction, exponent⟩ (digitBytes whole ++ (behind ++ power))
  | negative {whole fraction : List Nat} {exponent : Option Int} {behind power : Bytes}
      (hwhole : IsWhole whole) (hfraction : Fraction fraction behind)
      (hexponent : Exponent exponent power) :
      Numeral ⟨true, whole, fraction, exponent⟩ (0x2d :: (digitBytes whole ++ (behind ++ power)))

/-! ## What is spelled is read -/

section Append

variable {whole fraction : List Nat} {exponent : Option Int} {behind power rest : Bytes}

theorem IsWhole.readWhole?_append (h : IsWhole whole) (hrest : NoDigit rest) :
    readWhole? (digitBytes whole ++ rest) = some (whole, rest) := by
  rw [readWhole?, readDigits_append h.lt hrest]
  match whole, h with
  | [], h => exact absurd rfl h.ne_nil
  | [d], _ => cases d <;> rfl
  | 0 :: _ :: _, h => cases h.zero_alone rfl
  | (d + 1) :: e :: ds, _ => rfl

/-- Digits are not empty. -/
theorem IsDigits.isEmpty_eq {ds : List Nat} (h : IsDigits ds) : ds.isEmpty = false :=
  List.isEmpty_eq_false_iff.2 h.ne_nil

theorem Fraction.readFraction?_append (h : Fraction fraction behind) (hrest : NoDigit rest)
    (hpoint : ∀ byte ∈ rest.head?, byte ≠ 0x2e) :
    readFraction? (behind ++ rest) = some (fraction, rest) := by
  cases h with
  | absent =>
    cases rest with
    | nil => rfl
    | cons byte rest => rw [List.nil_append, readFraction?, if_neg (hpoint byte rfl)]
  | point h =>
    rw [List.cons_append, readFraction?, if_pos rfl, readDigits_append h.lt hrest]
    simp [h.isEmpty_eq]

theorem Sign.readSign_append {negative : Bool} {sign : Bytes} (h : Sign negative sign)
    {ds : List Nat} (hds : IsDigits ds) (rest : Bytes) :
    readSign (sign ++ (digitBytes ds ++ rest)) = (negative, digitBytes ds ++ rest) := by
  cases h with
  | absent =>
    match ds, hds with
    | [], hds => exact absurd rfl hds.ne_nil
    | d :: ds, hds =>
      have hlt := hds.lt d List.mem_cons_self
      rw [digitBytes, List.map_cons, List.nil_append, List.cons_append, readSign,
        if_neg (digitByte_ne hlt (by decide)), if_neg (digitByte_ne hlt (by decide))]
  | plus => rfl
  | minus => rfl

theorem Exponent.readExponent?_append (h : Exponent exponent power) (hrest : Ends rest) :
    readExponent? (power ++ rest) = some (exponent, rest) := by
  cases h with
  | absent =>
    cases rest with
    | nil => rfl
    | cons byte rest =>
      obtain ⟨-, -, hsmall, hcapital⟩ := hrest byte rfl
      rw [List.nil_append, readExponent?, if_neg (not_or.2 ⟨hsmall, hcapital⟩)]
  | power hletter hsign h =>
    rw [List.cons_append, List.append_assoc, readExponent?, if_pos hletter,
      hsign.readSign_append h rest]
    dsimp only
    rw [readDigits_append h.lt hrest.noDigit]
    simp [h.isEmpty_eq]

/-- Behind the digits of a fraction come the exponent or the end. -/
theorem Exponent.ends_digits (h : Exponent exponent power) (hrest : Ends rest) :
    NoDigit (power ++ rest) ∧ ∀ byte ∈ (power ++ rest).head?, byte ≠ 0x2e := by
  cases h with
  | absent => exact ⟨hrest.noDigit, fun byte hmem => (hrest byte hmem).2.1⟩
  | power hletter =>
    constructor
    · refine noDigit_cons ?_ _
      rcases hletter with rfl | rfl <;> decide
    · rintro _ ⟨⟩
      rcases hletter with rfl | rfl <;> decide

theorem readUnsigned?_append (negative : Bool) (hwhole : IsWhole whole)
    (hfraction : Fraction fraction behind) (hexponent : Exponent exponent power)
    (hrest : Ends rest) :
    readUnsigned? negative (digitBytes whole ++ (behind ++ power) ++ rest) =
      some (⟨negative, whole, fraction, exponent⟩, rest) := by
  obtain ⟨hdigits, hpoint⟩ := hexponent.ends_digits hrest
  have hbehind : NoDigit (behind ++ (power ++ rest)) := by
    cases hfraction with
    | absent => exact hdigits
    | point => exact noDigit_cons (by decide) _
  rw [List.append_assoc, List.append_assoc, readUnsigned?, hwhole.readWhole?_append hbehind]
  dsimp only [bind, Option.bind]
  rw [hfraction.readFraction?_append hdigits hpoint]
  dsimp only
  rw [hexponent.readExponent?_append hrest]

/-- **A number is read as it is spelled**, up to an octet that does not belong to it. -/
theorem Numeral.readLiteral?_append {literal : Literal} {bytes : Bytes} (h : Numeral literal bytes)
    (hrest : Ends rest) : readLiteral? (bytes ++ rest) = some (literal, rest) := by
  cases h with
  | positive hwhole hfraction hexponent =>
    have hread := readUnsigned?_append false hwhole hfraction hexponent hrest
    obtain ⟨d, ds, rfl⟩ := List.exists_cons_of_ne_nil hwhole.ne_nil
    have hlt := hwhole.lt d List.mem_cons_self
    rw [digitBytes, List.map_cons, List.cons_append, List.cons_append] at hread ⊢
    rw [readLiteral?, if_neg (digitByte_ne hlt (by decide)), hread]
  | negative hwhole hfraction hexponent =>
    rw [List.cons_append, readLiteral?, if_pos rfl]
    exact readUnsigned?_append true hwhole hfraction hexponent hrest

end Append

/-! ## What is read is spelled -/

section Sound

variable {text rest : Bytes}

theorem isDigits_of_readDigits (h : (readDigits text).1.isEmpty = false) :
    IsDigits (readDigits text).1 :=
  ⟨List.isEmpty_eq_false_iff.1 h, (readDigits_sound text).2⟩

theorem exists_whole {ds : List Nat} (h : readWhole? text = some (ds, rest)) :
    IsWhole ds ∧ text = digitBytes ds ++ rest := by
  obtain ⟨htext, hlt⟩ := readDigits_sound text
  unfold readWhole? at h
  split at h
  · cases h
  · cases h
  · next hne hzero heq =>
    cases h
    rw [heq] at htext hlt
    refine ⟨⟨⟨hne, hlt⟩, fun hhead => ?_⟩, htext⟩
    match ds, hhead with
    | [_], rfl => rfl
    | _ :: _ :: _, rfl => exact (hzero _ _ rfl).elim

theorem exists_fraction {ds : List Nat} (h : readFraction? text = some (ds, rest)) :
    ∃ behind, Fraction ds behind ∧ text = behind ++ rest := by
  unfold readFraction? at h
  split at h
  · cases h
    exact ⟨[], .absent, rfl⟩
  · next byte tail =>
    split at h
    · next hpoint =>
      subst hpoint
      dsimp only at h
      split at h
      · cases h
      · next hdigits =>
        cases h
        refine ⟨_, .point (isDigits_of_readDigits (eq_false_of_ne_true hdigits)), ?_⟩
        rw [List.cons_append, ← (readDigits_sound tail).1]
    · cases h
      exact ⟨[], .absent, rfl⟩

theorem exists_sign (text : Bytes) :
    ∃ sign, Sign (readSign text).1 sign ∧ text = sign ++ (readSign text).2 := by
  unfold readSign
  split
  · exact ⟨[], .absent, rfl⟩
  · split
    · next hminus => exact ⟨[0x2d], .minus, by rw [hminus]; rfl⟩
    · split
      · next hplus => exact ⟨[0x2b], .plus, by rw [hplus]; rfl⟩
      · exact ⟨[], .absent, rfl⟩

theorem exists_exponent {exponent : Option Int} (h : readExponent? text = some (exponent, rest)) :
    ∃ power, Exponent exponent power ∧ text = power ++ rest := by
  unfold readExponent? at h
  split at h
  · cases h
    exact ⟨[], .absent, rfl⟩
  · next byte tail =>
    split at h
    · next hletter =>
      obtain ⟨sign, hsign, htail⟩ := exists_sign tail
      dsimp only at h
      split at h
      · cases h
      · next hdigits =>
        cases h
        have hpower := isDigits_of_readDigits (eq_false_of_ne_true hdigits)
        refine ⟨_, .power hletter hsign hpower, ?_⟩
        rw [List.cons_append, List.append_assoc, ← (readDigits_sound (readSign tail).2).1, ← htail]
    · cases h
      exact ⟨[], .absent, rfl⟩

/-- **Only numbers are read as such.** -/
theorem exists_numeral {literal : Literal} (h : readLiteral? text = some (literal, rest)) :
    ∃ bytes, Numeral literal bytes ∧ text = bytes ++ rest := by
  have hunsigned {negative : Bool} {text : Bytes}
      (h : readUnsigned? negative text = some (literal, rest)) :
      ∃ whole fraction exponent behind power, IsWhole whole ∧ Fraction fraction behind ∧
        Exponent exponent power ∧ literal = ⟨negative, whole, fraction, exponent⟩ ∧
        text = digitBytes whole ++ (behind ++ power) ++ rest := by
    simp only [readUnsigned?, Option.bind_eq_bind, Option.bind_eq_some_iff, Option.some.injEq,
      Prod.mk.injEq, Prod.exists] at h
    obtain ⟨whole, _, h₁, fraction, _, h₂, exponent, _, h₃, rfl, rfl⟩ := h
    obtain ⟨hwhole, rfl⟩ := exists_whole h₁
    obtain ⟨behind, hfraction, rfl⟩ := exists_fraction h₂
    obtain ⟨power, hexponent, rfl⟩ := exists_exponent h₃
    exact ⟨whole, fraction, exponent, behind, power, hwhole, hfraction, hexponent, rfl,
      by rw [List.append_assoc, List.append_assoc]⟩
  unfold readLiteral? at h
  split at h
  · cases h
  · next byte tail =>
    split at h
    · next hminus =>
      obtain ⟨_, _, _, _, _, hwhole, hfraction, hexponent, rfl, rfl⟩ := hunsigned h
      exact ⟨_, .negative hwhole hfraction hexponent, by rw [hminus]; rfl⟩
    · obtain ⟨_, _, _, _, _, hwhole, hfraction, hexponent, rfl, htext⟩ := hunsigned h
      exact ⟨_, .positive hwhole hfraction hexponent, htext⟩

end Sound

end SealedEnvelope.Json
