import SealedEnvelope.Proofs.Json.Strings

/-!
# How a string is spelled

The grammar of strings, said without reference to how they are read.  Between its quotes a string
is a list of pieces, each of which is an octet, alone or behind a backslash, or a UTF-16 code unit,
written in four digits (`Piece.Spelled`).  What the pieces stand for is found afterwards
(`decodePieces`): two code units in a row may make one character, and half of such a pair makes the
string stand for nothing.

Reading finds the closing quote and what the pieces stand for at once, and agrees with the grammar
(`spell?_append_quote`, `exists_pieces`).
-/

namespace SealedEnvelope.Json

/-- A piece of a string. -/
inductive Piece where
  | octet (byte : UInt8)
  /-- A UTF-16 code unit. -/
  | unit (number : Nat)

/-- The letters that may stand behind a backslash, and the octets that they stand for. -/
def escapes : List (UInt8 × UInt8) :=
  [(0x22, 0x22), (0x5c, 0x5c), (0x2f, 0x2f), (0x62, 0x08), (0x66, 0x0c), (0x6e, 0x0a),
    (0x72, 0x0d), (0x74, 0x09)]

/-- The octets that spell a piece. -/
inductive Piece.Spelled : Piece → Bytes → Prop
  | plain {byte : UInt8} (h : IsPlain byte) : Spelled (.octet byte) [byte]
  | escape {letter octet : UInt8} (h : (letter, octet) ∈ escapes) :
      Spelled (.octet octet) [0x5c, letter]
  | unit {a b c d : UInt8} {number : Nat} (h : codeUnit? a b c d = some number) :
      Spelled (.unit number) [0x5c, 0x75, a, b, c, d]

/-- The octets that spell pieces, one after the other. -/
inductive PiecesSpelled : List Piece → Bytes → Prop
  | nil : PiecesSpelled [] []
  | cons {piece : Piece} {pieces : List Piece} {bytes rest : Bytes} (h : piece.Spelled bytes)
      (hrest : PiecesSpelled pieces rest) : PiecesSpelled (piece :: pieces) (bytes ++ rest)

/-- The octets that pieces stand for.  Of code units, a pair stands for one character, and half of
a pair for none. -/
def decodePieces : List Piece → Option Bytes
  | [] => some []
  | .octet byte :: rest => (decodePieces rest).map (byte :: ·)
  | .unit first :: .unit second :: rest =>
    if isLeading first && isTrailing second then
      (decodePieces rest).map (String.utf8EncodeChar (surrogatePair first second) ++ ·)
    else if isLeading first || isTrailing first then none
    else (decodePieces (.unit second :: rest)).map (String.utf8EncodeChar (Char.ofNat first) ++ ·)
  | .unit first :: rest =>
    if isLeading first || isTrailing first then none
    else (decodePieces rest).map (String.utf8EncodeChar (Char.ofNat first) ++ ·)

/-! ## Code units -/

theorem isTrailing_eq_false {number : Nat} (h : isLeading number = true) :
    isTrailing number = false := by
  simp only [isLeading, isTrailing, Bool.and_eq_true, decide_eq_true_eq, Bool.and_eq_false_iff,
    decide_eq_false_iff_not] at h ⊢
  omega

/-- Whether pieces go on with the second half of a pair. -/
def GoesOn (pieces : List Piece) : Prop := ∃ number rest, pieces = .unit number :: rest ∧
  isTrailing number = true

/-- A code unit that is no half of a pair stands for a character. -/
theorem decodePieces_char {number : Nat} (hleading : isLeading number = false)
    (htrailing : isTrailing number = false) (rest : List Piece) :
    decodePieces (.unit number :: rest) =
      (decodePieces rest).map (String.utf8EncodeChar (Char.ofNat number) ++ ·) := by
  match rest with
  | [] => simp [decodePieces, hleading, htrailing]
  | .octet _ :: _ => simp [decodePieces, hleading, htrailing]
  | .unit _ :: _ => rw [decodePieces, hleading, htrailing]; rfl

/-- The first half of a pair needs the second one. -/
theorem decodePieces_leading {number : Nat} (h : isLeading number = true) {rest : List Piece}
    (hrest : ¬GoesOn rest) : decodePieces (.unit number :: rest) = none := by
  match rest, hrest with
  | [], _ => simp [decodePieces, h]
  | .octet _ :: _, _ => simp [decodePieces, h]
  | .unit second :: rest, hrest =>
    have hsecond : isTrailing second = false :=
      eq_false_of_ne_true fun htrailing => hrest ⟨second, rest, rfl, htrailing⟩
    rw [decodePieces, h, hsecond]
    rfl

/-- The second half of a pair needs the first one. -/
theorem decodePieces_trailing {number : Nat} (h : isTrailing number = true) (rest : List Piece) :
    decodePieces (.unit number :: rest) = none := by
  have hleading : isLeading number = false :=
    eq_false_of_ne_true fun hleading => by
      rw [isTrailing_eq_false hleading] at h
      cases h
  match rest with
  | [] => simp [decodePieces, h]
  | .octet _ :: _ => simp [decodePieces, h]
  | .unit _ :: _ => rw [decodePieces, hleading, h]; rfl

/-! ## What is spelled is read -/

theorem simpleEscape?_eq_some_iff {letter octet : UInt8} :
    simpleEscape? letter = some octet ↔ (letter, octet) ∈ escapes := by
  constructor
  · intro h
    unfold simpleEscape? at h
    split at h
    · next hself =>
      cases h
      rcases hself with rfl | rfl | rfl <;> decide
    · repeat' split at h
      all_goals first
        | cases h
          done
        | next hletter =>
          cases h
          rw [hletter]
          decide
  · intro h
    simp only [escapes, List.mem_cons, Prod.mk.injEq, List.not_mem_nil, or_false] at h
    rcases h with ⟨rfl, rfl⟩ | ⟨rfl, rfl⟩ | ⟨rfl, rfl⟩ | ⟨rfl, rfl⟩ | ⟨rfl, rfl⟩ | ⟨rfl, rfl⟩ |
      ⟨rfl, rfl⟩ | ⟨rfl, rfl⟩ <;> rfl

theorem escape_ne_unit {letter octet : UInt8} (h : (letter, octet) ∈ escapes) : letter ≠ 0x75 := by
  rintro rfl
  simp [escapes] at h

/-- Behind a backslash. -/
theorem spell?_backslash {text rest : Bytes} {octets : Option Bytes}
    (h : readEscape? text = some (octets, rest)) :
    spell? (0x5c :: text) = (spell? rest).map (·.after octets) := by
  rw [spell?, if_neg (by decide), if_pos rfl]
  split
  · next hnone => rw [h] at hnone; cases hnone
  · next found rest' hfound =>
    rw [h] at hfound
    cases hfound
    rfl

/-- A text that starts with the second half of a pair starts with its piece. -/
theorem readTrailing?_eq_some_iff {text rest : Bytes} {number : Nat} :
    readTrailing? text = some (number, rest) ↔
      isTrailing number = true ∧ ∃ a b c d, codeUnit? a b c d = some number ∧
        text = 0x5c :: 0x75 :: a :: b :: c :: d :: rest := by
  constructor
  · intro h
    unfold readTrailing? at h
    split at h
    · next slash letter tail =>
      split at h
      · next hword =>
        obtain ⟨rfl, rfl⟩ := hword
        obtain ⟨hunit, htrailing⟩ := Option.filter_eq_some_iff.1 h
        refine ⟨htrailing, ?_⟩
        unfold readUnit? at hunit
        split at hunit
        · next a b c d tail =>
          obtain ⟨_, hcode, heq⟩ := Option.map_eq_some_iff.1 hunit
          cases heq
          exact ⟨a, b, c, d, hcode, rfl⟩
        · cases hunit
      · cases h
    · cases h
  · rintro ⟨htrailing, a, b, c, d, hcode, rfl⟩
    rw [readTrailing?, if_pos ⟨rfl, rfl⟩, readUnit?, hcode]
    simp [Option.filter, htrailing]

/-- Pieces go on with the second half of a pair exactly if their text does. -/
theorem exists_readTrailing?_iff {pieces : List Piece} {bytes : Bytes}
    (h : PiecesSpelled pieces bytes) (rest : Bytes) :
    (∃ found, readTrailing? (bytes ++ 0x22 :: rest) = some found) ↔ GoesOn pieces := by
  constructor
  · rintro ⟨⟨number, rest'⟩, hread⟩
    obtain ⟨htrailing, a, b, c, d, hcode, htext⟩ := readTrailing?_eq_some_iff.1 hread
    cases h with
    | nil => cases htext
    | cons hpiece hpieces =>
      rw [List.append_assoc] at htext
      cases hpiece with
      | plain hplain => exact absurd (List.cons.inj htext).1 hplain.2.1
      | escape hletter =>
        exact absurd (List.cons.inj (List.cons.inj htext).2).1 (escape_ne_unit hletter)
      | unit hunit =>
        simp only [List.cons_append, List.nil_append, List.cons.injEq, true_and] at htext
        obtain ⟨rfl, rfl, rfl, rfl, -⟩ := htext
        cases hunit.symm.trans hcode
        exact ⟨number, _, rfl, htrailing⟩
  · rintro ⟨number, pieces, rfl, htrailing⟩
    obtain _ | ⟨hpiece, hpieces⟩ := h
    obtain _ | _ | hunit := hpiece
    rw [List.append_assoc]
    exact ⟨_, readTrailing?_eq_some_iff.2 ⟨htrailing, _, _, _, _, hunit, rfl⟩⟩

theorem readEscape?_letter {letter octet : UInt8} (h : (letter, octet) ∈ escapes) (rest : Bytes) :
    readEscape? (letter :: rest) = some (some [octet], rest) := by
  rw [readEscape?, if_neg (escape_ne_unit h), simpleEscape?_eq_some_iff.2 h]
  rfl

section Unit

variable {a b c d : UInt8} {number : Nat} {rest : Bytes} (h : codeUnit? a b c d = some number)
include h

theorem readEscape?_char (hleading : isLeading number = false)
    (htrailing : isTrailing number = false) :
    readEscape? (0x75 :: a :: b :: c :: d :: rest) =
      some (some (String.utf8EncodeChar (Char.ofNat number)), rest) := by
  simp [readEscape?, readUnit?, h, hleading, htrailing]

theorem readEscape?_trailing (htrailing : isTrailing number = true) :
    readEscape? (0x75 :: a :: b :: c :: d :: rest) = some (none, rest) := by
  have hleading : isLeading number = false :=
    eq_false_of_ne_true fun hleading => by
      rw [isTrailing_eq_false hleading] at htrailing
      cases htrailing
  simp [readEscape?, readUnit?, h, hleading, htrailing]

theorem readEscape?_leading (hleading : isLeading number = true)
    (hrest : readTrailing? rest = none) :
    readEscape? (0x75 :: a :: b :: c :: d :: rest) = some (none, rest) := by
  simp [readEscape?, readUnit?, h, hleading, hrest]

theorem readEscape?_pair (hleading : isLeading number = true) {second : Nat} {rest' : Bytes}
    (hrest : readTrailing? rest = some (second, rest')) :
    readEscape? (0x75 :: a :: b :: c :: d :: rest) =
      some (some (String.utf8EncodeChar (surrogatePair number second)), rest') := by
  simp [readEscape?, readUnit?, h, hleading, hrest]

end Unit

theorem Spelled.after_eq (front : Bytes) (octets : Option Bytes) (rest : Bytes) :
    (Spelled.mk octets rest).after (some front) = ⟨octets.map (front ++ ·), rest⟩ := rfl

/-- **A string is read as it is spelled**, up to its closing quote. -/
theorem spell?_append_quote : ∀ (pieces : List Piece) {bytes : Bytes},
    PiecesSpelled pieces bytes → ∀ rest : Bytes,
    spell? (bytes ++ 0x22 :: rest) = some ⟨decodePieces pieces, rest⟩
  | [], _, h, rest => by
    cases h
    rw [List.nil_append, spell?, if_pos rfl]
    rfl
  | .octet byte :: pieces, _, h, rest => by
    obtain _ | ⟨hpiece, hpieces⟩ := h
    have hread := spell?_append_quote pieces hpieces rest
    rw [List.append_assoc, decodePieces]
    cases hpiece with
    | plain hplain => rw [List.singleton_append, spell?_plain hplain, hread]; rfl
    | escape hletter =>
      rw [List.cons_append, List.singleton_append,
        spell?_backslash (readEscape?_letter hletter _), hread]
      rfl
  | .unit first :: pieces, _, h, rest => by
    obtain _ | ⟨hpiece, hpieces⟩ := h
    obtain _ | _ | hunit := hpiece
    have hread := spell?_append_quote pieces hpieces rest
    rw [List.append_assoc]
    simp only [List.cons_append, List.nil_append]
    cases htrailing : isTrailing first with
    | true =>
      rw [spell?_backslash (readEscape?_trailing hunit htrailing), hread,
        decodePieces_trailing htrailing]
      rfl
    | false =>
      cases hleading : isLeading first with
      | false =>
        rw [spell?_backslash (readEscape?_char hunit hleading htrailing), hread,
          decodePieces_char hleading htrailing, Option.map_some, Spelled.after_eq]
      | true =>
        by_cases hgoes : GoesOn pieces
        · obtain ⟨second, pieces, rfl, hsecond⟩ := hgoes
          obtain _ | ⟨hpiece, hpieces⟩ := hpieces
          obtain _ | _ | hunit' := hpiece
          rw [List.append_assoc]
          simp only [List.cons_append, List.nil_append]
          rw [spell?_backslash (readEscape?_pair hunit hleading
              (readTrailing?_eq_some_iff.2 ⟨hsecond, _, _, _, _, hunit', rfl⟩)),
            spell?_append_quote pieces hpieces, decodePieces, hleading, hsecond]
          rfl
        · have hnone := Option.eq_none_iff_forall_ne_some.2 fun found hfound =>
            hgoes ((exists_readTrailing?_iff hpieces rest).1 ⟨found, hfound⟩)
          rw [spell?_backslash (readEscape?_leading hunit hleading hnone), hread,
            decodePieces_leading hleading hgoes]
          rfl
termination_by pieces => pieces.length

/-! ## What is read is spelled -/

theorem readUnit?_eq_some {text rest : Bytes} {number : Nat}
    (h : readUnit? text = some (number, rest)) :
    ∃ a b c d, codeUnit? a b c d = some number ∧ text = a :: b :: c :: d :: rest := by
  unfold readUnit? at h
  split at h
  · next a b c d tail =>
    obtain ⟨_, hcode, heq⟩ := Option.map_eq_some_iff.1 h
    cases heq
    exact ⟨a, b, c, d, hcode, rfl⟩
  · cases h

/-- An escape is one piece, or two if it is a pair. -/
theorem exists_pieces_of_readEscape? {text bytes behind : Bytes} {octets : Option Bytes}
    (h : readEscape? text = some (octets, bytes ++ 0x22 :: behind)) {pieces : List Piece}
    (hpieces : PiecesSpelled pieces bytes) :
    ∃ pieces' bytes', PiecesSpelled pieces' bytes' ∧
      decodePieces pieces' = octets.bind (fun front => (decodePieces pieces).map (front ++ ·)) ∧
      0x5c :: text = bytes' ++ 0x22 :: behind := by
  unfold readEscape? at h
  split at h
  · cases h
  · split at h
    · next hletter =>
      subst hletter
      split at h
      · cases h
      · next first rest hunit =>
        obtain ⟨a, b, c, d, hcode, rfl⟩ := readUnit?_eq_some hunit
        split at h
        · next hleading =>
          split at h
          · next second rest' hfound =>
            obtain ⟨hsecond, _, _, _, _, hcode', rfl⟩ := readTrailing?_eq_some_iff.1 hfound
            cases h
            refine ⟨_, _, .cons (.unit hcode) (.cons (.unit hcode') hpieces), ?_, rfl⟩
            rw [decodePieces, hleading, hsecond]
            rfl
          · next hnone =>
            cases h
            refine ⟨_, _, .cons (.unit hcode) hpieces, ?_, rfl⟩
            refine decodePieces_leading hleading fun hgoes => ?_
            obtain ⟨found, hfound⟩ := (exists_readTrailing?_iff hpieces behind).2 hgoes
            rw [hnone] at hfound
            cases hfound
        · next hleading =>
          split at h
          · next htrailing =>
            cases h
            exact ⟨_, _, .cons (.unit hcode) hpieces, decodePieces_trailing htrailing _, rfl⟩
          · next htrailing =>
            cases h
            exact ⟨_, _, .cons (.unit hcode) hpieces, decodePieces_char
              (eq_false_of_ne_true hleading) (eq_false_of_ne_true htrailing) _, rfl⟩
    · obtain ⟨octet, hletter, heq⟩ := Option.map_eq_some_iff.1 h
      cases heq
      refine ⟨_, _, .cons (.escape (simpleEscape?_eq_some_iff.1 hletter)) hpieces, ?_, rfl⟩
      rw [decodePieces]
      rfl

/-- **Only strings are read as such.** -/
theorem exists_pieces {text : Bytes} {spelled : Spelled} (h : spell? text = some spelled) :
    ∃ pieces bytes, PiecesSpelled pieces bytes ∧ decodePieces pieces = spelled.octets ∧
      text = bytes ++ 0x22 :: spelled.rest := by
  fun_induction spell? text generalizing spelled with
  | case1 => cases h
  | case2 =>
    cases h
    exact ⟨[], [], .nil, rfl, rfl⟩
  | case3 => cases h
  | case4 rest octets rest' hescape _ _ ih =>
    obtain ⟨inner, hinner, rfl⟩ := Option.map_eq_some_iff.1 h
    obtain ⟨pieces, bytes, hpieces, hoctets, rfl⟩ := ih hinner
    obtain ⟨pieces', bytes', hpieces', hoctets', htext⟩ :=
      exists_pieces_of_readEscape? hescape hpieces
    exact ⟨pieces', bytes', hpieces', by rw [hoctets', hoctets]; rfl, htext⟩
  | case5 => cases h
  | case6 byte rest hquote hslash hcontrol ih =>
    obtain ⟨inner, hinner, rfl⟩ := Option.map_eq_some_iff.1 h
    obtain ⟨pieces, bytes, hpieces, hoctets, rfl⟩ := ih hinner
    refine ⟨_, _, .cons (.plain ⟨hquote, hslash, hcontrol⟩) hpieces, ?_, rfl⟩
    rw [decodePieces, hoctets]
    rfl

end SealedEnvelope.Json
