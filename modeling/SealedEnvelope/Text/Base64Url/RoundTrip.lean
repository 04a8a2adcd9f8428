import SealedEnvelope.Text.Base64Url

/-!
# Base64url there and back

Writing and reading base64url are inverse to each other, up to the fill.

* `decode_encode`: reading what was written gives the octets back.
* `exists_fill_of_decode`: a text that can be read is the one that would be written,
  and some `=` behind it.

## Why the split does not show

Body and tail of a text are read differently only where there is an `=`.  A text of
symbols alone has the numbers of its symbols, wherever it is split, and the numbers
that were read from a text say what its symbols were.
-/

namespace SealedEnvelope.Text.Base64Url

/-! ## Symbols -/

/-- The octet of the symbol of a number. -/
def symbolByte (n : Nat) : UInt8 := UInt8.ofNat (symbol n).toNat

theorem utf8EncodeChar_symbol {n : Nat} (h : n < 64) :
    String.utf8EncodeChar (symbol n) = [symbolByte n] := by
  have : ∀ n : Fin 64, String.utf8EncodeChar (symbol n) = [symbolByte n] := by
    decide +kernel
  exact this ⟨n, h⟩

theorem value?_symbolByte {n : Nat} (h : n < 64) : value? (symbolByte n) = some n := by
  have : ∀ n : Fin 64, value? (symbolByte n) = some n.val := by decide +kernel
  exact this ⟨n, h⟩

theorem symbolByte_ne_fill {n : Nat} (h : n < 64) : symbolByte n ≠ fill := by
  have : ∀ n : Fin 64, symbolByte n ≠ fill := by decide +kernel
  exact this ⟨n, h⟩

theorem of_value?_eq_some {byte : UInt8} {n : Nat} (h : value? byte = some n) :
    n < 64 ∧ symbolByte n = byte := by
  have all : ∀ b : Fin 256, (value? (UInt8.ofFin b)).all fun n =>
      n < 64 && symbolByte n = UInt8.ofFin b := by decide +kernel
  have := all byte.toFin
  rw [show UInt8.ofFin byte.toFin = byte from rfl, h] at this
  simpa using this

/-! ## Six bits at a time -/

theorem sextets_lt (bytes : Bytes) : ∀ n ∈ sextets bytes, n < 64 := by
  fun_induction sextets bytes with
  | case1 => simp
  | case2 a => simp; have := a.toNat_lt; omega
  | case3 a b => simp; have := a.toNat_lt; have := b.toNat_lt; omega
  | case4 a b c rest ih =>
    have := a.toNat_lt
    have := b.toNat_lt
    have := c.toNat_lt
    simp only [List.mem_cons, forall_eq_or_imp]
    exact ⟨by omega, by omega, by omega, by omega, ih⟩

theorem length_sextets_mod (bytes : Bytes) : (sextets bytes).length % 4 ≠ 1 := by
  fun_induction sextets bytes with
  | case1 => simp
  | case2 => simp
  | case3 => simp
  | case4 a b c rest ih => simp only [List.length_cons]; omega

theorem octets_sextets (offset : Nat) (bytes : Bytes) :
    octets offset (sextets bytes) = .ok bytes := by
  fun_induction sextets bytes generalizing offset with
  | case1 => rfl
  | case2 a =>
    have := a.toNat_lt
    simp only [octets]
    rw [if_pos (by omega), show a.toNat / 4 * 4 + a.toNat % 4 * 16 / 16 = a.toNat by omega,
      UInt8.ofNat_toNat]
  | case3 a b =>
    have := a.toNat_lt
    have := b.toNat_lt
    simp only [octets]
    rw [if_pos (by omega),
      show a.toNat / 4 * 4 + (a.toNat % 4 * 16 + b.toNat / 16) / 16 = a.toNat by omega,
      show (a.toNat % 4 * 16 + b.toNat / 16) % 16 * 16 + b.toNat % 16 * 4 / 4 = b.toNat by omega,
      UInt8.ofNat_toNat, UInt8.ofNat_toNat]
  | case4 a b c rest ih =>
    have := a.toNat_lt
    have := b.toNat_lt
    have := c.toNat_lt
    simp only [octets, ih]
    rw [show a.toNat / 4 * 4 + (a.toNat % 4 * 16 + b.toNat / 16) / 16 = a.toNat by omega,
      show (a.toNat % 4 * 16 + b.toNat / 16) % 16 * 16 +
        (b.toNat % 16 * 4 + c.toNat / 64) / 4 = b.toNat by omega,
      show (b.toNat % 16 * 4 + c.toNat / 64) % 4 * 64 + c.toNat % 64 = c.toNat by omega,
      UInt8.ofNat_toNat, UInt8.ofNat_toNat, UInt8.ofNat_toNat]
    rfl

/-- The numbers of a text are those of the octets that they stand for. -/
theorem sextets_of_octets {offset : Nat} {ns : List Nat} {bytes : Bytes}
    (hns : ∀ n ∈ ns, n < 64) (h : octets offset ns = .ok bytes) : sextets bytes = ns := by
  fun_induction octets offset ns generalizing bytes with
  | case1 => cases h; rfl
  | case2 => cases h
  | case3 offset p q hq =>
    cases h
    have := hns p (by simp)
    have := hns q (by simp)
    simp only [sextets, UInt8.toNat_ofNat', List.cons.injEq, and_true]
    omega
  | case4 => cases h
  | case5 offset p q r hr =>
    cases h
    have := hns p (by simp)
    have := hns q (by simp)
    have := hns r (by simp)
    simp only [sextets, UInt8.toNat_ofNat', List.cons.injEq, and_true]
    omega
  | case6 => cases h
  | case7 offset p q r s rest ih =>
    cases hrest : octets (offset + 4) rest with
    | error fault => rw [hrest] at h; cases h
    | ok others =>
      rw [hrest] at h
      cases h
      have := hns p (by simp)
      have := hns q (by simp)
      have := hns r (by simp)
      have := hns s (by simp)
      have := ih (fun n hn => hns n (by simp [hn])) hrest
      simp only [sextets, UInt8.toNat_ofNat', List.cons.injEq, this, and_true]
      omega

/-! ## Body and tail -/

theorem bodyValues_map_symbolByte (offset : Nat) {ns : List Nat} (hns : ∀ n ∈ ns, n < 64) :
    bodyValues offset (ns.map symbolByte) = .ok ns := by
  induction ns generalizing offset with
  | nil => rfl
  | cons n ns ih =>
    simp only [List.map_cons, bodyValues, value?_symbolByte (hns n (by simp)),
      ih (offset + 1) fun n hn => hns n (by simp [hn])]
    rfl

theorem tailValues_map_symbolByte (offset : Nat) {ns : List Nat} (hns : ∀ n ∈ ns, n < 64) :
    tailValues offset none (ns.map symbolByte) = .ok ns := by
  induction ns generalizing offset with
  | nil => rfl
  | cons n ns ih =>
    have hn := hns n (by simp)
    simp only [List.map_cons, tailValues, value?_symbolByte hn, if_neg (symbolByte_ne_fill hn),
      ih (offset + 1) fun n hn => hns n (by simp [hn])]
    rfl

theorem of_bodyValues {offset : Nat} {text : Bytes} {ns : List Nat}
    (h : bodyValues offset text = .ok ns) : (∀ n ∈ ns, n < 64) ∧ text = ns.map symbolByte := by
  induction text generalizing offset ns with
  | nil => cases h; simp
  | cons byte rest ih =>
    unfold bodyValues at h
    split at h
    · cases h
    · next v hv =>
      obtain ⟨hlt, rfl⟩ := of_value?_eq_some hv
      cases hrest : bodyValues (offset + 1) rest with
      | error fault => rw [hrest] at h; cases h
      | ok others =>
        rw [hrest] at h
        cases h
        obtain ⟨hothers, rfl⟩ := ih hrest
        simpa using ⟨hlt, hothers⟩

theorem of_tailValues_filled {offset first : Nat} {text : Bytes} {ns : List Nat}
    (h : tailValues offset (some first) text = .ok ns) :
    ns = [] ∧ text = List.replicate text.length fill := by
  induction text generalizing offset first ns with
  | nil => cases h; simp
  | cons byte rest ih =>
    unfold tailValues at h
    split at h
    · next hbyte =>
      dsimp only at h
      split at h
      · cases h
      · obtain ⟨rfl, hrest⟩ := ih h
        refine ⟨rfl, ?_⟩
        rw [hbyte, List.length_cons, List.replicate_succ, ← hrest]
    · cases h

theorem of_tailValues {offset : Nat} {text : Bytes} {ns : List Nat}
    (h : tailValues offset none text = .ok ns) :
    (∀ n ∈ ns, n < 64) ∧ ∃ count, text = ns.map symbolByte ++ List.replicate count fill := by
  induction text generalizing offset ns with
  | nil => cases h; exact ⟨by simp, 0, rfl⟩
  | cons byte rest ih =>
    unfold tailValues at h
    split at h
    · next hbyte =>
      dsimp only at h
      split at h
      · cases h
      · obtain ⟨rfl, hrest⟩ := of_tailValues_filled h
        refine ⟨by simp, rest.length + 1, ?_⟩
        rw [hbyte, List.replicate_succ, ← hrest]
        rfl
    · dsimp only at h
      split at h
      · cases h
      · next v hv =>
        obtain ⟨hlt, rfl⟩ := of_value?_eq_some hv
        cases hrest : tailValues (offset + 1) none rest with
        | error fault => rw [hrest] at h; cases h
        | ok others =>
          rw [hrest] at h
          cases h
          obtain ⟨hothers, count, rfl⟩ := ih hrest
          exact ⟨by simpa using ⟨hlt, hothers⟩, count, rfl⟩

/-! ## Texts -/

theorem ofText_encode (bytes : Bytes) :
    Bytes.ofText (encode bytes) = (sextets bytes).map symbolByte := by
  rw [encode, Bytes.ofText_ofList]
  have h := sextets_lt bytes
  generalize sextets bytes = ns at h
  induction ns with
  | nil => rfl
  | cons n ns ih =>
    rw [List.map_cons, List.flatMap_cons, utf8EncodeChar_symbol (h n (by simp)),
      ih fun n hn => h n (by simp [hn])]
    rfl

theorem decodeBytes_map_symbolByte {ns : List Nat} (hns : ∀ n ∈ ns, n < 64)
    (hlength : ns.length % 4 ≠ 1) : decodeBytes (ns.map symbolByte) = octets 0 ns := by
  unfold decodeBytes
  have hcheck : checkLength (ns.map symbolByte) = .ok () := by
    rw [checkLength, if_neg (by rwa [List.length_map])]
  rw [hcheck]
  simp only [← List.map_take, ← List.map_drop]
  show (do
    let body ← bodyValues 0 ((ns.take (bodyLength _)).map symbolByte)
    let tail ← tailValues (bodyLength _) none ((ns.drop (bodyLength _)).map symbolByte)
    octets 0 (body ++ tail)) = _
  rw [bodyValues_map_symbolByte 0 fun n hn => hns n (List.mem_of_mem_take hn)]
  show (do
    let tail ← tailValues (bodyLength _) none ((ns.drop (bodyLength _)).map symbolByte)
    octets 0 (_ ++ tail)) = _
  rw [tailValues_map_symbolByte _ fun n hn => hns n (List.mem_of_mem_drop hn)]
  show octets 0 (_ ++ _) = _
  rw [List.take_append_drop]

/-- Reading what was written gives the octets back. -/
@[simp] theorem decode_encode (bytes : Bytes) : decode (encode bytes) = .ok bytes := by
  rw [decode, ofText_encode, decodeBytes_map_symbolByte (sextets_lt bytes)
    (length_sextets_mod bytes), octets_sextets]

/-- A text that can be read is what would be written, up to the fill. -/
theorem exists_fill_of_decode {text : String} {bytes : Bytes} (h : decode text = .ok bytes) :
    ∃ count, Bytes.ofText text = Bytes.ofText (encode bytes) ++ List.replicate count fill := by
  unfold decode decodeBytes at h
  generalize Bytes.ofText text = octetsOfText at h ⊢
  cases hcheck : checkLength octetsOfText with
  | error fault => rw [hcheck] at h; cases h
  | ok =>
    rw [hcheck] at h
    cases hbody : bodyValues 0 (octetsOfText.take (bodyLength octetsOfText.length)) with
    | error fault => simp [hbody, bind, Except.bind] at h
    | ok body =>
      cases htail : tailValues (bodyLength octetsOfText.length) none
          (octetsOfText.drop (bodyLength octetsOfText.length)) with
      | error fault => simp [hbody, htail, bind, Except.bind] at h
      | ok tail =>
        simp only [hbody, htail, bind, Except.bind] at h
        obtain ⟨hbodylt, hbodytext⟩ := of_bodyValues hbody
        obtain ⟨htaillt, count, htailtext⟩ := of_tailValues htail
        refine ⟨count, ?_⟩
        have hlt : ∀ n ∈ body ++ tail, n < 64 := by
          intro n hn
          rcases List.mem_append.1 hn with hn | hn
          · exact hbodylt n hn
          · exact htaillt n hn
        rw [ofText_encode, sextets_of_octets hlt h, List.map_append, List.append_assoc, ← htailtext,
          ← hbodytext, List.take_append_drop]

end SealedEnvelope.Text.Base64Url
