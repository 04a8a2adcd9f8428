import Mathlib.Data.List.Chain
import SealedEnvelope.Json.Scan
import SealedEnvelope.Proofs.Json.Numerals
import SealedEnvelope.Proofs.Json.Pieces

/-!
# How a text is spelled

A JSON text is a list of tokens, each spelled by its octets, with blanks anywhere between them
(`Spelling`).  Cutting a text gives the tokens that spell it, if it gives any
(`spelling_of_scan`), and it gives them whenever a number does not run into what follows it
(`Spelling.scan_eq`).  That can not happen where a number is followed by a comma or a closing
bracket (`Separated`).
-/

namespace SealedEnvelope.Json

/-! ## The grammar -/

/-- The octets of a token that has only one spelling. -/
def Token.fixed? : Token → Option Bytes
  | .leftBrace => some [0x7b]
  | .rightBrace => some [0x7d]
  | .leftBracket => some [0x5b]
  | .rightBracket => some [0x5d]
  | .comma => some [0x2c]
  | .colon => some [0x3a]
  | .null => some [0x6e, 0x75, 0x6c, 0x6c]
  | .bool true => some [0x74, 0x72, 0x75, 0x65]
  | .bool false => some [0x66, 0x61, 0x6c, 0x73, 0x65]
  | .number _ | .string _ | .junk => none

/-- The octets that spell a token. -/
inductive Token.Spelled : Token → Bytes → Prop
  | fixed {token : Token} {bytes : Bytes} (h : token.fixed? = some bytes) : Spelled token bytes
  | number {literal : Literal} {bytes : Bytes} (h : Numeral literal bytes) :
      Spelled (.number (Number.ofLiteral? literal)) bytes
  | string {pieces : List Piece} {bytes : Bytes} (h : PiecesSpelled pieces bytes) :
      Spelled (.string ((decodePieces pieces).bind Bytes.toText?)) (0x22 :: (bytes ++ [0x22]))

/-- The text is the tokens, one after the other, with blanks between them. -/
inductive Spelling : List Token → Bytes → Prop
  | nil : Spelling [] []
  | blank {byte : UInt8} {tokens : List Token} {text : Bytes} (h : isBlank byte = true)
      (htext : Spelling tokens text) : Spelling tokens (byte :: text)
  | cons {token : Token} {tokens : List Token} {bytes text : Bytes} (h : token.Spelled bytes)
      (htext : Spelling tokens text) : Spelling (token :: tokens) (bytes ++ text)

/-- The token is one that may follow a value. -/
def Token.Follows : Token → Prop
  | .comma | .rightBracket | .rightBrace => True
  | _ => False

/-- Whether the token is a number. -/
def Token.isNumber : Token → Bool
  | .number _ => true
  | _ => false

/-- What follows a number may follow a value. -/
def Separated (tokens : List Token) : Prop :=
  tokens.IsChain fun token next => token.isNumber = true → next.Follows

theorem separated_nil : Separated [] := .nil

theorem separated_cons {token : Token} {tokens : List Token} (htoken : token.isNumber = false)
    (h : Separated tokens) : Separated (token :: tokens) :=
  List.isChain_cons.2 ⟨fun _ _ hnumber => absurd (htoken ▸ hnumber) Bool.false_ne_true, h⟩

/-! ## Single tokens -/

namespace Token

variable {token : Token} {bytes text rest : Bytes}

/-- The tokens of a text that starts with the octet `byte`. -/
theorem scan_cons {byte : UInt8} (hblank : isBlank byte = false)
    (hcut : cut? byte text = some (token, rest)) : scan (byte :: text) = token :: scan rest := by
  rw [scan, if_neg (by rw [hblank]; exact Bool.false_ne_true)]
  split
  · next hnone => rw [hcut] at hnone; cases hnone
  · next found rest' hfound =>
    rw [hcut] at hfound
    cases hfound
    rfl

theorem scan_blank {byte : UInt8} (h : isBlank byte = true) (text : Bytes) :
    scan (byte :: text) = scan text := by
  rw [scan, if_pos h]

/-- An octet that a number starts with. -/
def StartsNumber (byte : UInt8) : Prop := byte = 0x2d ∨ ∃ d : Fin 10, byte = digitByte d

/-- What starts like a number starts like no other token. -/
theorem cut?_of_startsNumber {byte : UInt8} (h : StartsNumber byte) (text : Bytes) :
    cut? byte text = (readLiteral? (byte :: text)).map fun found =>
      (Token.number (Number.ofLiteral? found.1), found.2) := by
  have hdigits : ∀ d : Fin 10, ∀ other ∈ [0x7b, 0x7d, 0x5b, 0x5d, 0x2c, 0x3a, 0x22, 0x6e, 0x74,
      0x66], digitByte d ≠ other := by decide +kernel
  have hne : ∀ other ∈ [0x7b, 0x7d, 0x5b, 0x5d, 0x2c, 0x3a, 0x22, 0x6e, 0x74, 0x66],
      byte ≠ other := by
    rcases h with rfl | ⟨d, rfl⟩
    · decide +kernel
    · exact hdigits d
  simp only [List.mem_cons, List.not_mem_nil, or_false, forall_eq_or_imp, forall_eq] at hne
  obtain ⟨h₁, h₂, h₃, h₄, h₅, h₆, h₇, h₈, h₉, h₁₀⟩ := hne
  unfold cut?
  rw [if_neg h₁, if_neg h₂, if_neg h₃, if_neg h₄, if_neg h₅, if_neg h₆, if_neg h₇, if_neg h₈,
    if_neg h₉, if_neg h₁₀]

theorem isBlank_of_startsNumber {byte : UInt8} (h : StartsNumber byte) : isBlank byte = false := by
  have hdigits : ∀ d : Fin 10, isBlank (digitByte d) = false := by decide +kernel
  rcases h with rfl | ⟨d, rfl⟩
  · rfl
  · exact hdigits d

theorem exists_startsNumber {literal : Literal} (h : Numeral literal bytes) :
    ∃ byte tail, bytes = byte :: tail ∧ StartsNumber byte := by
  cases h with
  | positive hwhole =>
    obtain ⟨d, ds, rfl⟩ := List.exists_cons_of_ne_nil hwhole.ne_nil
    exact ⟨digitByte d, _, rfl, .inr ⟨⟨d, hwhole.lt d List.mem_cons_self⟩, rfl⟩⟩
  | negative => exact ⟨0x2d, _, rfl, .inl rfl⟩

/-- A token is cut as it is spelled, if a number ends where it should. -/
theorem Spelled.scan_append (h : token.Spelled bytes)
    (hends : token.isNumber = true → Ends rest) :
    scan (bytes ++ rest) = token :: scan rest := by
  cases h with
  | fixed hfixed =>
    cases token with
    | number | string | junk => cases hfixed
    | bool value => cases value <;> cases hfixed <;> exact scan_cons rfl rfl
    | _ => cases hfixed; exact scan_cons rfl rfl
  | number hnumeral =>
    obtain ⟨byte, tail, rfl, hstart⟩ := exists_startsNumber hnumeral
    have hread := hnumeral.readLiteral?_append (hends rfl)
    rw [List.cons_append] at hread ⊢
    refine scan_cons (isBlank_of_startsNumber hstart) ?_
    rw [cut?_of_startsNumber hstart, hread]
    rfl
  | string hpieces =>
    rw [List.cons_append, List.append_assoc, List.singleton_append]
    refine scan_cons rfl ?_
    show ((spell? _).map fun spelled => (Token.string (spelled.octets.bind Bytes.toText?),
      spelled.rest)) = _
    rw [spell?_append_quote _ hpieces]
    rfl

theorem eq_append_of_stripWord? {word : Bytes} (h : stripWord? word text = some rest) :
    text = word ++ rest := by
  induction word generalizing text with
  | nil => exact Option.some.inj h
  | cons letter word ih =>
    cases text with
    | nil => cases h
    | cons first text =>
      rw [stripWord?] at h
      split at h
      · next heq => rw [heq, ih h, List.cons_append]
      · cases h

/-- What is cut off a text spells the token. -/
theorem spelled_of_cut? {byte : UInt8} (h : cut? byte text = some (token, rest)) :
    ∃ bytes, token.Spelled bytes ∧ byte :: text = bytes ++ rest := by
  have hword {letters : Bytes} {word : Token} {letter : UInt8} (hbyte : byte = letter)
      (hfixed : word.fixed? = some (letter :: letters))
      (h : (stripWord? letters text).map (word, ·) = some (token, rest)) :
      ∃ bytes, token.Spelled bytes ∧ byte :: text = bytes ++ rest := by
    obtain ⟨_, hstrip, heq⟩ := Option.map_eq_some_iff.1 h
    cases heq
    exact ⟨_, .fixed hfixed, by rw [hbyte, eq_append_of_stripWord? hstrip]; rfl⟩
  have hmark {mark : Token} {letter : UInt8} (hbyte : byte = letter)
      (hfixed : mark.fixed? = some [letter]) (h : some (mark, text) = some (token, rest)) :
      ∃ bytes, token.Spelled bytes ∧ byte :: text = bytes ++ rest := by
    cases h
    exact ⟨_, .fixed hfixed, by rw [hbyte]; rfl⟩
  unfold cut? at h
  by_cases hbyte : byte = 0x7b
  · rw [if_pos hbyte] at h
    exact hmark hbyte rfl h
  rw [if_neg hbyte] at h
  by_cases hbyte : byte = 0x7d
  · rw [if_pos hbyte] at h
    exact hmark hbyte rfl h
  rw [if_neg hbyte] at h
  by_cases hbyte : byte = 0x5b
  · rw [if_pos hbyte] at h
    exact hmark hbyte rfl h
  rw [if_neg hbyte] at h
  by_cases hbyte : byte = 0x5d
  · rw [if_pos hbyte] at h
    exact hmark hbyte rfl h
  rw [if_neg hbyte] at h
  by_cases hbyte : byte = 0x2c
  · rw [if_pos hbyte] at h
    exact hmark hbyte rfl h
  rw [if_neg hbyte] at h
  by_cases hbyte : byte = 0x3a
  · rw [if_pos hbyte] at h
    exact hmark hbyte rfl h
  rw [if_neg hbyte] at h
  by_cases hbyte : byte = 0x22
  · rw [if_pos hbyte] at h
    obtain ⟨spelled, hspell, heq⟩ := Option.map_eq_some_iff.1 h
    obtain ⟨pieces, bytes, hpieces, hoctets, rfl⟩ := exists_pieces hspell
    cases heq
    have hspelled := Spelled.string hpieces
    rw [hoctets] at hspelled
    refine ⟨_, hspelled, ?_⟩
    rw [hbyte, List.cons_append, List.append_assoc, List.singleton_append]
  rw [if_neg hbyte] at h
  by_cases hbyte : byte = 0x6e
  · rw [if_pos hbyte] at h
    exact hword hbyte rfl h
  rw [if_neg hbyte] at h
  by_cases hbyte : byte = 0x74
  · rw [if_pos hbyte] at h
    exact hword hbyte rfl h
  rw [if_neg hbyte] at h
  by_cases hbyte : byte = 0x66
  · rw [if_pos hbyte] at h
    exact hword hbyte rfl h
  rw [if_neg hbyte] at h
  obtain ⟨⟨literal, _⟩, hread, heq⟩ := Option.map_eq_some_iff.1 h
  obtain ⟨bytes, hnumeral, htext⟩ := exists_numeral hread
  cases heq
  exact ⟨bytes, .number hnumeral, htext⟩

end Token

/-! ## Whole texts -/

variable {tokens : List Token} {text : Bytes}

/-- No octet that stands between tokens, or starts one that may follow a value, belongs to a
number. -/
theorem Spelling.ends (h : Spelling tokens text)
    (hfollows : ∀ token ∈ tokens.head?, token.Follows) :
    Ends text := by
  cases h with
  | nil => exact nofun
  | blank hblank =>
    rintro _ ⟨⟩
    simp only [isBlank, Bool.or_eq_true, decide_eq_true_eq] at hblank
    rcases hblank with ((rfl | rfl) | rfl) | rfl <;> decide
  | @cons token _ _ _ hspelled =>
    have htoken : token.Follows := hfollows token rfl
    cases hspelled with
    | number | string => cases htoken
    | fixed hfixed =>
      cases token <;> cases htoken <;> cases hfixed <;> rintro _ ⟨⟩ <;> decide

/-- **A text is cut into the tokens that spell it.** -/
theorem Spelling.scan_eq (h : Spelling tokens text) (hseparated : Separated tokens) :
    Token.scan text = tokens := by
  induction h with
  | nil => rw [Token.scan]
  | blank hblank _ ih => rw [Token.scan_blank hblank, ih hseparated]
  | cons hspelled htext ih =>
    obtain ⟨hfollows, hrest⟩ := List.isChain_cons.1 hseparated
    rw [hspelled.scan_append fun hnumber =>
        htext.ends fun next hnext => hfollows next hnext hnumber,
      ih hrest]

/-- **A text that is cut into tokens is spelled by them.** -/
theorem spelling_of_scan (h : Token.junk ∉ Token.scan text) : Spelling (Token.scan text) text := by
  fun_induction Token.scan text with
  | case1 => exact .nil
  | case2 byte rest hblank ih => exact .blank hblank (ih h)
  | case3 => exact absurd List.mem_cons_self h
  | case4 byte rest hblank token rest' hcut _ ih =>
    obtain ⟨bytes, hspelled, heq⟩ := Token.spelled_of_cut? hcut
    rw [heq]
    exact .cons hspelled (ih fun hmem => h (List.mem_cons_of_mem token hmem))

end SealedEnvelope.Json
