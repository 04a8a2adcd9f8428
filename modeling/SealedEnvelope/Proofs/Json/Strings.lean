import SealedEnvelope.Json.Scan.Text
import SealedEnvelope.Json.Token

/-!
# Reading back a string that was written

A string is written character by character, so it is enough to know what reading does
with a single character as it is written (`spell?_escapeChar`).  There are three kinds of
characters: those with a short escape, control characters, which are written as
numbers, and all others, which stand for themselves.

## Why the quote is found

The quote and the backslash are octets below `0x80`, and in UTF-8 a character beyond
these has no such octet.  So the octets of a character that stands for itself are all
plain, and the first plain quote is the closing one.
-/

namespace SealedEnvelope.Json

/-- An octet that stands for itself in a string. -/
def IsPlain (byte : UInt8) : Prop := byte ≠ 0x22 ∧ byte ≠ 0x5c ∧ ¬byte < 0x20

theorem spell?_plain {byte : UInt8} (h : IsPlain byte) (rest : Bytes) :
    spell? (byte :: rest) = (spell? rest).map (·.after (some [byte])) := by
  obtain ⟨hquote, hslash, hcontrol⟩ := h
  rw [spell?, if_neg hquote, if_neg hslash, if_neg hcontrol]

/-- Putting octets in front twice is putting them in front together. -/
theorem Spelled.after_after (spelled : Spelled) (front back : Bytes) :
    (spelled.after (some back)).after (some front) = spelled.after (some (front ++ back)) := by
  cases spelled with
  | mk octets rest => cases octets <;> simp [Spelled.after]

@[simp] theorem Spelled.after_nil (spelled : Spelled) : spelled.after (some []) = spelled := by
  cases spelled with
  | mk octets rest => cases octets <;> rfl

/-- Octets that stand for themselves are read as they are. -/
theorem spell?_append {bytes : Bytes} (h : ∀ byte ∈ bytes, IsPlain byte) (rest : Bytes) :
    spell? (bytes ++ rest) = (spell? rest).map (·.after (some bytes)) := by
  induction bytes with
  | nil => simp
  | cons byte bytes ih =>
    have hbytes : ∀ byte ∈ bytes, IsPlain byte := fun b hb => h b (List.mem_cons_of_mem _ hb)
    rw [List.cons_append, spell?_plain (h byte List.mem_cons_self), ih hbytes, Option.map_map]
    refine congrArg (Option.map · _) (funext fun spelled => ?_)
    exact spelled.after_after [byte] bytes

/-- An escape stands for its octets. -/
theorem spell?_escape {text rest octets : Bytes} (h : readEscape? text = some (some octets, rest)) :
    spell? (0x5c :: text) = (spell? rest).map (·.after (some octets)) := by
  rw [spell?, if_neg (by decide), if_pos rfl]
  split
  · next hnone => rw [h] at hnone; cases hnone
  · next found rest' hfound =>
    rw [h] at hfound
    cases hfound
    rfl

/-! ## Characters -/

/-- A control character is written as the number of its code unit. -/
theorem readEscape?_control {n : Nat} (h : n < 0x20) (rest : Bytes) :
    readEscape? (0x75 :: 0x30 :: 0x30 :: UInt8.ofNat (Text.Hex.digit (n / 16)).toNat ::
      UInt8.ofNat (Text.Hex.digit (n % 16)).toNat :: rest) =
      some (some (String.utf8EncodeChar (Char.ofNat n)), rest) := by
  have hunit : ∀ n : Fin 0x20, codeUnit? 0x30 0x30
      (UInt8.ofNat (Text.Hex.digit (n.val / 16)).toNat)
      (UInt8.ofNat (Text.Hex.digit (n.val % 16)).toNat) = some n.val := by decide +kernel
  have hleading : isLeading n = false := by simp [isLeading]; omega
  have htrailing : isTrailing n = false := by simp [isTrailing]; omega
  rw [readEscape?, if_pos rfl, readUnit?, hunit ⟨n, h⟩]
  simp [hleading, htrailing]

/-- The octets of a character that is written as it is stand for themselves. -/
theorem isPlain_of_mem_utf8EncodeChar {c : Char} (hquote : c ≠ '"') (hslash : c ≠ '\\')
    (hcontrol : ¬c.toNat < 0x20) {byte : UInt8} (h : byte ∈ String.utf8EncodeChar c) :
    IsPlain byte := by
  have hquote' : c.val.toNat ≠ 0x22 := fun heq =>
    hquote (Char.ext (UInt32.toNat_inj.1 heq))
  have hslash' : c.val.toNat ≠ 0x5c := fun heq =>
    hslash (Char.ext (UInt32.toNat_inj.1 heq))
  have hcontrol' : ¬c.val.toNat < 0x20 := hcontrol
  have hplain : ∀ n : Nat, n < 256 → n ≠ 0x22 → n ≠ 0x5c → ¬n < 0x20 →
      IsPlain (UInt8.ofNat n) := by
    intro n hn h₁ h₂ h₃
    refine ⟨fun heq => h₁ ?_, fun heq => h₂ ?_, fun hlt => h₃ ?_⟩
    · simpa [Nat.mod_eq_of_lt hn] using congrArg UInt8.toNat heq
    · simpa [Nat.mod_eq_of_lt hn] using congrArg UInt8.toNat heq
    · simpa [Nat.mod_eq_of_lt hn] using UInt8.lt_iff_toNat_lt.1 hlt
  unfold String.utf8EncodeChar at h
  dsimp only at h
  split at h
  · rw [List.mem_singleton] at h
    subst h
    exact hplain _ (by omega) hquote' hslash' hcontrol'
  · split at h
    · rcases List.mem_cons.1 h with rfl | h
      · exact hplain _ (by omega) (by omega) (by omega) (by omega)
      · rw [List.mem_singleton] at h
        subst h
        exact hplain _ (by omega) (by omega) (by omega) (by omega)
    · split at h
      all_goals
        simp only [List.mem_cons, List.not_mem_nil, or_false] at h
        rcases h with rfl | rfl | rfl | rfl <;>
          exact hplain _ (by omega) (by omega) (by omega) (by omega)

/-- A control character that has no short form is read as its octets. -/
theorem spell?_control {c : Char} (h : c.toNat < 0x20) (rest : Bytes) :
    spell? (['\\', 'u', '0', '0', Text.Hex.digit (c.toNat / 16),
        Text.Hex.digit (c.toNat % 16)].flatMap String.utf8EncodeChar ++ rest) =
      (spell? rest).map (·.after (some (String.utf8EncodeChar c))) := by
  have hdigits : ∀ n : Fin 0x20,
      String.utf8EncodeChar (Text.Hex.digit (n.val / 16)) ++
        String.utf8EncodeChar (Text.Hex.digit (n.val % 16)) =
      [UInt8.ofNat (Text.Hex.digit (n.val / 16)).toNat,
        UInt8.ofNat (Text.Hex.digit (n.val % 16)).toNat] := by decide +kernel
  have hword : ['\\', 'u', '0', '0', Text.Hex.digit (c.toNat / 16),
      Text.Hex.digit (c.toNat % 16)].flatMap String.utf8EncodeChar =
      [0x5c, 0x75, 0x30, 0x30] ++ [UInt8.ofNat (Text.Hex.digit (c.toNat / 16)).toNat,
        UInt8.ofNat (Text.Hex.digit (c.toNat % 16)).toNat] := by
    rw [← hdigits ⟨c.toNat, h⟩]
    simp only [List.flatMap_cons, List.flatMap_nil, List.append_nil]
    rfl
  have hread := readEscape?_control h rest
  rw [Char.ofNat_toNat] at hread
  rw [hword]
  exact spell?_escape hread

/-- A character as it is written is read as its octets. -/
theorem spell?_escapeChar (c : Char) (rest : Bytes) :
    spell? ((escapeChar c).flatMap String.utf8EncodeChar ++ rest) =
      (spell? rest).map (·.after (some (String.utf8EncodeChar c))) := by
  unfold escapeChar
  by_cases hshort : c ∈ ['"', '\\', '\x08', '\x0c', '\n', '\r', '\t']
  · simp only [List.mem_cons, List.not_mem_nil, or_false] at hshort
    rcases hshort with rfl | rfl | rfl | rfl | rfl | rfl | rfl <;> exact spell?_escape rfl
  · simp only [List.mem_cons, List.not_mem_nil, or_false, not_or] at hshort
    obtain ⟨hquote, hslash, hback, hfeed, hline, hreturn, htab⟩ := hshort
    rw [if_neg hquote, if_neg hslash, if_neg hback, if_neg hfeed, if_neg hline, if_neg hreturn,
      if_neg htab]
    split
    · next hcontrol => exact spell?_control hcontrol rest
    · next hcontrol =>
      rw [List.flatMap_singleton]
      exact spell?_append
        (fun byte h => isPlain_of_mem_utf8EncodeChar hquote hslash hcontrol h) rest

/-- **Reading undoes writing**: behind its opening quote, a string that was written is
read up to its closing quote, and as the octets of its text. -/
theorem spell?_flatMap_escapeChar (cs : List Char) (rest : Bytes) :
    spell? ((cs.flatMap escapeChar).flatMap String.utf8EncodeChar ++ 0x22 :: rest) =
      some ⟨some (cs.flatMap String.utf8EncodeChar), rest⟩ := by
  induction cs with
  | nil =>
    show spell? (0x22 :: rest) = _
    rw [spell?, if_pos rfl]
    rfl
  | cons c cs ih =>
    rw [List.flatMap_cons, List.flatMap_append, List.append_assoc, spell?_escapeChar, ih]
    rfl

end SealedEnvelope.Json
