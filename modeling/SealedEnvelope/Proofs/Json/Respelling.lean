import SealedEnvelope.Proofs.Json.Rendering

/-!
# Trees that a text spells

Which trees have a text is a matter of their leaves: nothing must be missing, and each number and
each string must be spelled by something (`Tree.spellable_object_iff`,
`Tree.spellable_array_iff`).  So the parts of a tree that has a text can be put together anew, and
the new tree has a text as well.

It makes no difference whether octets may spell a tree that are no UTF-8.  What a string stands for
has a text, numbers are spelled in ASCII, and a string that stands for nothing can be spelled with
half of a surrogate pair (`Token.Spelled.exists_text`).
-/

namespace SealedEnvelope.Json

/-! ## Octets that are text -/

/-- The octets are the UTF-8 of some text. -/
def IsText (bytes : Bytes) : Prop := ∃ text : String, Bytes.ofText text = bytes

theorem isText_flatMap (chars : List Char) : IsText (chars.flatMap String.utf8EncodeChar) :=
  ⟨String.ofList chars, Bytes.ofText_ofList chars⟩

theorem IsText.append {bytes rest : Bytes} (h : IsText bytes) (hrest : IsText rest) :
    IsText (bytes ++ rest) := by
  obtain ⟨text, rfl⟩ := h
  obtain ⟨rest, rfl⟩ := hrest
  rw [← String.ofList_toList (s := text), ← String.ofList_toList (s := rest), Bytes.ofText_ofList,
    Bytes.ofText_ofList, ← List.flatMap_append]
  exact isText_flatMap _

/-- The octets are ASCII. -/
def IsAscii (bytes : Bytes) : Prop := ∀ byte ∈ bytes, byte.toNat < 128

theorem isAscii_nil : IsAscii [] := fun _ h => absurd h List.not_mem_nil

theorem IsAscii.isText {bytes : Bytes} (h : IsAscii bytes) : IsText bytes := by
  have hchar : ∀ n : Fin 128, String.utf8EncodeChar (Char.ofNat n) = [UInt8.ofNat n] := by
    decide +kernel
  induction bytes with
  | nil => exact isText_flatMap []
  | cons byte bytes ih =>
    obtain ⟨hbyte, hbytes⟩ := List.forall_mem_cons.1 h
    have hfirst := isText_flatMap [Char.ofNat byte.toNat]
    rw [List.flatMap_singleton, hchar ⟨byte.toNat, hbyte⟩, UInt8.ofNat_toNat] at hfirst
    exact hfirst.append (ih hbytes)

theorem IsAscii.append {bytes rest : Bytes} (h : IsAscii bytes) (hrest : IsAscii rest) :
    IsAscii (bytes ++ rest) :=
  List.forall_mem_append.2 ⟨h, hrest⟩

theorem IsAscii.cons {byte : UInt8} {bytes : Bytes} (hbyte : byte.toNat < 128) (h : IsAscii bytes) :
    IsAscii (byte :: bytes) :=
  List.forall_mem_cons.2 ⟨hbyte, h⟩

/-! ## Tokens that are text -/

theorem isAscii_digitBytes {ds : List Nat} (h : ∀ d ∈ ds, d < 10) : IsAscii (digitBytes ds) := by
  have hdigit : ∀ d : Fin 10, (digitByte d).toNat < 128 := by decide +kernel
  intro byte hmem
  obtain ⟨d, hd, rfl⟩ := List.mem_map.1 hmem
  exact hdigit ⟨d, h d hd⟩

theorem Fraction.isAscii {ds : List Nat} {bytes : Bytes} (h : Fraction ds bytes) :
    IsAscii bytes := by
  cases h with
  | absent => exact isAscii_nil
  | point h => exact .cons (by decide) (isAscii_digitBytes h.lt)

theorem Sign.isAscii {negative : Bool} {bytes : Bytes} (h : Sign negative bytes) :
    IsAscii bytes := by
  cases h with
  | absent => exact isAscii_nil
  | plus | minus => exact .cons (by decide) isAscii_nil

theorem Exponent.isAscii {exponent : Option Int} {bytes : Bytes} (h : Exponent exponent bytes) :
    IsAscii bytes := by
  cases h with
  | absent => exact isAscii_nil
  | power hletter hsign h =>
    refine .cons ?_ (hsign.isAscii.append (isAscii_digitBytes h.lt))
    rcases hletter with rfl | rfl <;> decide

theorem Numeral.isAscii {literal : Literal} {bytes : Bytes} (h : Numeral literal bytes) :
    IsAscii bytes := by
  cases h with
  | positive hwhole hfraction hexponent =>
    exact (isAscii_digitBytes hwhole.lt).append (hfraction.isAscii.append hexponent.isAscii)
  | negative hwhole hfraction hexponent =>
    exact .cons (by decide)
      ((isAscii_digitBytes hwhole.lt).append (hfraction.isAscii.append hexponent.isAscii))

namespace Token

/-- The octets of a token that can be written are text. -/
theorem isText_bytes (token : Token) : IsText token.bytes := isText_flatMap token.chars

/-- Half of a surrogate pair, in quotes. -/
theorem spelled_string_none :
    Spelled (.string none) [0x22, 0x5c, 0x75, 0x64, 0x38, 0x30, 0x30, 0x22] := by
  have hpieces : PiecesSpelled [.unit 0xd800] [0x5c, 0x75, 0x64, 0x38, 0x30, 0x30] :=
    .cons (.unit (by decide)) .nil
  exact .string hpieces

/-- **Whatever spells a token, a text does.** -/
theorem Spelled.exists_isText {token : Token} {bytes : Bytes} (h : token.Spelled bytes) :
    ∃ bytes, IsText bytes ∧ token.Spelled bytes := by
  cases h with
  | fixed hfixed =>
    exact ⟨_, token.isText_bytes, spelled_of_fixed (Option.isSome_of_eq_some hfixed)⟩
  | number hnumeral => exact ⟨bytes, hnumeral.isAscii.isText, .number hnumeral⟩
  | @string pieces =>
    cases (decodePieces pieces).bind Bytes.toText? with
    | some text => exact ⟨_, isText_bytes _, spelled_string text⟩
    | none => exact ⟨_, IsAscii.isText (by simp [IsAscii]), spelled_string_none⟩

end Token

/-! ## Trees -/

/-- Some text spells the token. -/
def Token.Spellable (token : Token) : Prop := ∃ bytes, IsText bytes ∧ token.Spelled bytes

theorem Token.spellable_of_fixed {token : Token} (h : token.fixed?.isSome) : token.Spellable :=
  ⟨_, token.isText_bytes, spelled_of_fixed h⟩

theorem Token.spellable_string (text : String) : Token.Spellable (.string (some text)) :=
  ⟨_, isText_bytes _, spelled_string text⟩

theorem Spelling.spellable {tokens : List Token} {text : Bytes} (h : Spelling tokens text) :
    ∀ token ∈ tokens, token.Spellable := by
  induction h with
  | nil => exact fun _ hmem => absurd hmem List.not_mem_nil
  | blank _ _ ih => exact ih
  | cons hspelled _ ih => exact List.forall_mem_cons.2 ⟨hspelled.exists_isText, ih⟩

/-- The spellings of tokens may follow each other without blanks. -/
theorem exists_spelling {tokens : List Token} (h : ∀ token ∈ tokens, token.Spellable) :
    ∃ text, IsText text ∧ Spelling tokens text := by
  induction tokens with
  | nil => exact ⟨[], isText_flatMap [], .nil⟩
  | cons token tokens ih =>
    obtain ⟨⟨bytes, hbytes, hspelled⟩, htokens⟩ := List.forall_mem_cons.1 h
    obtain ⟨text, htext, hspelling⟩ := ih htokens
    exact ⟨bytes ++ text, hbytes.append htext, .cons hspelled hspelling⟩

namespace Tree

/-- Some text has this tree. -/
def Spellable (tree : Tree) : Prop := ∃ text : String, tree.Spells (Bytes.ofText text)

theorem spellable_iff {tree : Tree} :
    tree.Spellable ↔ tree.intact = true ∧ ∀ token ∈ tree.tokens, token.Spellable := by
  constructor
  · rintro ⟨text, hintact, hspelling⟩
    exact ⟨hintact, hspelling.spellable⟩
  · rintro ⟨hintact, htokens⟩
    obtain ⟨_, ⟨text, rfl⟩, hspelling⟩ := exists_spelling htokens
    exact ⟨text, hintact, hspelling⟩

/-- **A tree that octets spell has a text.** -/
theorem Spells.spellable {tree : Tree} {text : Bytes} (h : tree.Spells text) : tree.Spellable :=
  spellable_iff.2 ⟨h.1, h.2.spellable⟩

theorem spellable_null : (null).Spellable := by
  refine spellable_iff.2 ⟨rfl, ?_⟩
  rw [tokens]
  exact List.forall_mem_singleton.2 (Token.spellable_of_fixed rfl)

theorem spellable_array_iff {items : List Tree} :
    (array items true).Spellable ↔ ∀ item ∈ items, item.Spellable := by
  rw [spellable_iff, intact_array_iff,
    forall_mem_tokens_array_iff fun _ => Token.spellable_of_fixed]
  simp only [spellable_iff, forall_and]

theorem spellable_object_iff {members : List (Option String × Tree)} :
    (object members true).Spellable ↔
      ∀ member ∈ members, Token.Spellable (.string member.1) ∧ member.2.Spellable := by
  rw [spellable_iff, intact_object_iff,
    forall_mem_tokens_object_iff fun _ => Token.spellable_of_fixed]
  simp only [spellable_iff, forall_and]
  exact and_left_comm

end Tree

end SealedEnvelope.Json
