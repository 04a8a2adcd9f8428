import Mathlib.Data.List.DropRight
import SealedEnvelope.Proofs.Reading.Envelope
import SealedEnvelope.Proofs.RoundTrip.Envelope

/-!
# Writing again what was read

Who passes an envelope on reads it and writes it again.  Nothing is lost that way, whatever the
text looked like: the new text stands for the same envelope, and so the next one to pass it on
writes the same text again (`Envelope.ofBytes_render_of_ofBytes`).

What a ciphertext is bound to is spelled as before, character by character.  All other octets
were read from base64url, where only the fill is free, and are written without it.
-/

namespace SealedEnvelope

open Json (Reader Tree Token Schema)
open Text

/-! ## Fill -/

/-- A text without the `=` at its end. -/
def Text.Base64Url.unfilled (text : String) : String :=
  String.ofList (text.toList.rdropWhile (· = '='))

namespace Text.Base64Url

theorem symbol_ne_fill {n : Nat} (h : n < 64) : symbol n ≠ '=' := by
  have : ∀ n : Fin 64, symbol n ≠ '=' := by decide +kernel
  exact this ⟨n, h⟩

theorem rdropWhile_fill {characters : List Char} (h : ∀ c ∈ characters, c ≠ '=') (count : Nat) :
    (characters ++ List.replicate count '=').rdropWhile (· = '=') = characters := by
  induction count with
  | zero =>
    rw [List.replicate_zero, List.append_nil, List.rdropWhile_eq_self_iff]
    exact fun hne => by simpa using h _ (List.getLast_mem hne)
  | succ count ih =>
    rw [List.replicate_succ', ← List.append_assoc, List.rdropWhile_concat_pos _ _ _ rfl, ih]

/-- Octets are written as they were spelled, without the fill. -/
theorem encode_eq_unfilled {text : String} {bytes : Bytes} (h : decode text = .ok bytes) :
    encode bytes = unfilled text := by
  have hfill (count : Nat) : (List.replicate count '=').flatMap String.utf8EncodeChar =
      List.replicate count fill := by
    induction count with
    | zero => rfl
    | succ count ih => rw [List.replicate_succ, List.flatMap_cons, ih, List.replicate_succ]; rfl
  obtain ⟨count, hcount⟩ := exists_fill_of_decode h
  obtain rfl : text = String.ofList ((sextets bytes).map symbol ++ List.replicate count '=') := by
    refine Bytes.ofText_injective ?_
    rw [hcount, encode, Bytes.ofText_ofList, Bytes.ofText_ofList, List.flatMap_append, hfill]
  rw [unfilled, String.toList_ofList, rdropWhile_fill, encode]
  intro c hmem
  obtain ⟨n, hn, rfl⟩ := List.mem_map.1 hmem
  exact symbol_ne_fill (sextets_lt bytes n hn)

end Text.Base64Url

/-! ## Spelling -/

/-- The string of a tree that is one. -/
def Json.Tree.text? : Tree → Option String
  | .string text => text
  | _ => none

/-- The strings of an envelope's text that stand for octets or that a ciphertext is bound to. -/
structure Spelling where
  protectedText : String
  aad : Option String
  iv : String
  ciphertext : String
  tag : String
  encryptedKeys : List String

/-- The strings with the fill left out, where it does not count. -/
def Spelling.unfilled (spelling : Spelling) : Spelling where
  protectedText := spelling.protectedText
  aad := spelling.aad
  iv := Base64Url.unfilled spelling.iv
  ciphertext := Base64Url.unfilled spelling.ciphertext
  tag := Base64Url.unfilled spelling.tag
  encryptedKeys := spelling.encryptedKeys.map Base64Url.unfilled

/-- How the encrypted key of a recipient is spelled. -/
def Recipient.spelling? (tree : Tree) : Option String :=
  (schema.found? tree "encrypted_key").bind Tree.text?

namespace Envelope

/-- How the encrypted keys are spelled: in the list of recipients, or if there is none, beside
the other members. -/
def encryptedKeys? (tree : Tree) : Option (List String) :=
  match schema.found? tree "recipients" with
  | some (.array trees _) => trees.mapM Recipient.spelling?
  | _ => ((schema.found? tree "encrypted_key").bind Tree.text?).map ([·])

/-- How an envelope is spelled in a tree. -/
def spellingIn? (tree : Tree) : Option Spelling := do
  let text name := (schema.found? tree name).bind Tree.text?
  some
    { protectedText := ← text "protected"
      aad := text "aad"
      iv := ← text "iv"
      ciphertext := ← text "ciphertext"
      tag := ← text "tag"
      encryptedKeys := ← encryptedKeys? tree }

/-- How an envelope is spelled in a text. -/
def spelling? (text : Bytes) : Option Spelling := spellingIn? (Tree.build (Token.scan text)).1

/-- How an envelope is written. -/
def spelling (envelope : Envelope) : Spelling where
  protectedText := envelope.protectedHeader.encoded
  aad := envelope.aad
  iv := Base64Url.encode envelope.payload.nonce
  ciphertext := Base64Url.encode envelope.payload.ciphertext
  tag := Base64Url.encode envelope.payload.tag
  encryptedKeys := envelope.recipients.map fun recipient => Base64Url.encode recipient.encryptedKey

variable {envelope : Envelope} {tree : Tree} {below : Nat}

/-- The encrypted keys are written as they were spelled, without the fill. -/
theorem RecipientsFrom.encryptedKeys {recipients : List Recipient} {flattened : Bool}
    (h : RecipientsFrom below tree recipients flattened) :
    ∃ texts, encryptedKeys? tree = some texts ∧ texts.map Base64Url.unfilled =
      recipients.map fun recipient => Base64Url.encode recipient.encryptedKey := by
  cases h with
  | list hfound hread =>
    rw [encryptedKeys?, hfound]
    dsimp only
    clear hfound
    induction hread with
    | nil => exact ⟨[], rfl, rfl⟩
    | cons hfirst _ ih =>
      obtain ⟨text, htext, hdecode⟩ := hfirst.encryptedKey
      obtain ⟨texts, htexts, heq⟩ := ih
      refine ⟨text :: texts, ?_, ?_⟩
      · rw [List.mapM_cons, Recipient.spelling?, htext, htexts]
        rfl
      · rw [List.map_cons, List.map_cons, heq, Base64Url.encode_eq_unfilled hdecode]
  | single habsent hread =>
    obtain ⟨text, htext, hdecode⟩ := hread.encryptedKey
    refine ⟨[text], ?_, by rw [List.map_singleton, ← Base64Url.encode_eq_unfilled hdecode]; rfl⟩
    rcases habsent with habsent | habsent <;> rw [encryptedKeys?, habsent, htext] <;> rfl

/-- An envelope is written as it was spelled, without the fill. -/
theorem ReadFrom.spelling (h : envelope.ReadFrom below tree) :
    ∃ spelling, spellingIn? tree = some spelling ∧ spelling.unfilled = envelope.spelling := by
  obtain ⟨encoded, hencoded, hheader⟩ := h.protectedHeader
  obtain ⟨iv, hiv, hnonce⟩ := h.nonce
  obtain ⟨ciphertext, hciphertext, hcipher⟩ := h.ciphertext
  obtain ⟨tag, htag, hdecode⟩ := h.tag
  obtain ⟨keys, hkeys, heq⟩ := h.recipients.encryptedKeys
  have haad : (schema.found? tree "aad").bind Tree.text? = envelope.aad := by
    rcases h.aad with ⟨hfound | hfound, hnone⟩ | ⟨text, hfound, hsome⟩
    · rw [hfound, hnone]
      rfl
    · rw [hfound, hnone]
      rfl
    · rw [hfound, hsome]
      rfl
  refine ⟨⟨encoded, envelope.aad, iv, ciphertext, tag, keys⟩, ?_, ?_⟩
  · simp only [spellingIn?, hencoded, hiv, hciphertext, htag, hkeys, haad]
    rfl
  · rw [Spelling.unfilled, Envelope.spelling, heq, Base64Url.encode_eq_unfilled hnonce,
      Base64Url.encode_eq_unfilled hcipher, Base64Url.encode_eq_unfilled hdecode,
      ProtectedHeader.encoded_eq hheader]

theorem mapM_spelling? (recipients : List Recipient) :
    (Tree.ofItems (recipients.map Recipient.toJson)).mapM Recipient.spelling? =
      some (recipients.map fun recipient => Base64Url.encode recipient.encryptedKey) := by
  induction recipients with
  | nil => rfl
  | cons recipient recipients ih =>
    rw [List.map_cons, Tree.ofItems, List.mapM_cons, ih]
    rfl

/-- The text of an envelope spells it as it is written. -/
theorem spellingIn?_toMembers (envelope : Envelope) :
    spellingIn? (.ofJson (.object envelope.toMembers)) = some envelope.spelling := by
  obtain ⟨protectedHeader, unprotected, recipients, aad, payload, flattened⟩ := envelope
  have hkeys : encryptedKeys? (.ofJson (.object (toMembers
      ⟨protectedHeader, unprotected, recipients, aad, payload, flattened⟩))) =
      some (recipients.map fun recipient => Base64Url.encode recipient.encryptedKey) := by
    cases unprotected <;> cases aad <;> cases flattened <;>
      rcases recipients with _ | ⟨recipient, _ | ⟨next, recipients⟩⟩ <;>
      first | rfl | exact mapM_spelling? _
  cases unprotected <;> cases aad <;> cases flattened <;>
    rcases recipients with _ | ⟨recipient, _ | ⟨next, recipients⟩⟩ <;>
    (rw [spellingIn?, hkeys]; rfl)

/-! ## Reading, writing and reading -/

theorem ReadFrom.settled_eq (h : envelope.ReadFrom below tree) : envelope.settled = envelope := by
  have hrecipients := h.recipients
  obtain ⟨_, _, recipients, _, _, flattened⟩ := envelope
  cases flattened with
  | false => rfl
  | true => rw [settled, decide_eq_true hrecipients.length_eq_one, Bool.and_true]

/-- What was read without doubles is read back from what is written. -/
theorem ReadFrom.legible (h : envelope.ReadFrom 126 tree)
    (hunprotected : ∀ header ∈ envelope.unprotected, header.toJson.Integral)
    (hrecipients : ∀ recipient ∈ envelope.recipients, recipient.header.toJson.Integral) :
    envelope.Legible where
  protectedHeader := h.ofEncoded_eq
  unprotected header hmem :=
    ⟨hunprotected header hmem, (h.unprotected header hmem).1, (h.unprotected header hmem).2⟩
  recipients recipient hmem := by
    obtain ⟨hdistinct, hdepth⟩ := h.recipients.sound recipient hmem
    refine ⟨hrecipients recipient hmem, hdistinct, Nat.le_trans hdepth ?_⟩
    rw [h.settled_eq]
    cases envelope.flattened <;> decide
  kids_nodup := h.kids_nodup

theorem readFrom_of_ofBytes {text : Bytes} (h : ofBytes text = .ok envelope) :
    envelope.ReadFrom 126 (Tree.build (Token.scan text)).1 := by
  obtain ⟨hread, -⟩ := Reader.whole_eq_ok_iff.1 (mapError_eq_ok_iff.1 h)
  obtain ⟨below, hbelow, hfrom⟩ := readFrom_of_reader hread
  obtain rfl : below = 126 := by
    change 127 = below + 1 at hbelow
    omega
  exact hfrom

/-- **Writing an envelope again loses nothing.**  An envelope that was read, without doubles in
its headers, is read again from the text that is written of it, and so that text does not change
any more.  The new text spells everything as the old one did, but for fill that does not
count. -/
theorem ofBytes_render_of_ofBytes {text : Bytes} (h : ofBytes text = .ok envelope)
    (hunprotected : ∀ header ∈ envelope.unprotected, header.toJson.Integral)
    (hrecipients : ∀ recipient ∈ envelope.recipients, recipient.header.toJson.Integral) :
    ofBytes (Bytes.ofText envelope.render) = .ok envelope ∧
      ∃ spelling, spelling? text = some spelling ∧
        spelling? (Bytes.ofText envelope.render) = some spelling.unfilled := by
  have hread := readFrom_of_ofBytes h
  have hlegible := hread.legible hunprotected hrecipients
  obtain ⟨spelling, hspelling, hunfilled⟩ := hread.spelling
  have hagain := ofText_render_of_legible hlegible
  -- Only a single recipient is read without a list, and so it is written without one again.
  rw [hread.settled_eq] at hagain
  refine ⟨hagain, spelling, hspelling, ?_⟩
  rw [spelling?, render, Token.scan_render (integral_toMembers hlegible), Tree.build_tokens,
    hunfilled]
  exact spellingIn?_toMembers envelope

/-- A text in the form of an array, with fill, a name that is repeated in a header and a
recipient without one. -/
theorem ofBytes_render_of_ofBytes_array :
    let text := Bytes.ofText ("[\"e30=\",\x7b\"a\":1,\"a\":2\x7d," ++
      "[\x7b\"encrypted_key\":\"AQ==\"\x7d,[\x7b\"kid\":\"b\"\x7d,\"Ag\"]]," ++
      "\x7b\x7d,null,\"x.y\",\"AA=\",\"AA==\",\"AA\"]")
    let written := "\x7b\"protected\":\"e30=\",\"unprotected\":\x7b\"a\":2\x7d,\"recipients\":[" ++
      "\x7b\"header\":\x7b\x7d,\"encrypted_key\":\"AQ\"\x7d," ++
      "\x7b\"header\":\x7b\"kid\":\"b\"\x7d,\"encrypted_key\":\"Ag\"\x7d]," ++
      "\"aad\":\"x.y\",\"iv\":\"AA\",\"ciphertext\":\"AA\",\"tag\":\"AA\"\x7d"
    ∃ envelope, ofBytes text = .ok envelope ∧ envelope.render = written ∧
      ofBytes (Bytes.ofText written) = .ok envelope ∧
      ∃ spelling, spelling? text = some spelling ∧
        spelling? (Bytes.ofText written) = some spelling.unfilled := by
  intro text written
  have hgiven : (ofBytes text).toOption.any (fun envelope =>
      envelope.render = written &&
        envelope.unprotected.all (fun header => header.toJson.Integral) &&
        envelope.recipients.all fun recipient => recipient.header.toJson.Integral) = true := by
    decide +kernel
  obtain ⟨envelope, hread, hgiven⟩ := exists_eq_ok_of_any hgiven
  simp only [Bool.and_eq_true, decide_eq_true_eq, Option.all_eq_true, List.all_eq_true] at hgiven
  obtain ⟨⟨hwritten, hunprotected⟩, hrecipients⟩ := hgiven
  obtain ⟨hagain, hspelling⟩ := ofBytes_render_of_ofBytes hread hunprotected hrecipients
  rw [hwritten] at hagain hspelling
  exact ⟨envelope, hread, hwritten, hagain, hspelling⟩

end Envelope

end SealedEnvelope
