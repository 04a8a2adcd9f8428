import SealedEnvelope.Proofs.Provenance.Binding
import SealedEnvelope.Proofs.Provenance.Consistency

/-!
# A protected header and its text

A ciphertext is bound to the text of the protected header, so this text has to say everything that
the header says.  It does: a header that was made from a text comes back from its own, with its
parameters in their order, and so two headers have one text only if they are the same header
(`ProtectedHeader.encoding_lossless`).

The other way round a header has many texts, since blanks, escapes, repeated names and fill do not
count.  Reading keeps the one that came, and writing the header again makes another one, which is
read as the same header.
-/

namespace SealedEnvelope

namespace ProtectedHeader

variable {header header' : Header} {text : String} {head : ProtectedHeader}

/-- A header that was decoded was made from a text. -/
theorem fromText_of_ofEncoded (h : ofEncoded text = .ok head)
    (hintegral : head.header.toJson.Integral) : head.header.FromText := by
  unfold ofEncoded at h
  split at h
  · cases h
  · next octets hdecode =>
    split at h
    · cases h
    · next header hread =>
      cases h
      exact ⟨hintegral, octets, hread⟩

/-- Two headers have one text only if they are the same, down to the order of parameters. -/
theorem encoded_eq_iff (h : header.FromText) (h' : header'.FromText) :
    (ofHeader header).encoded = (ofHeader header').encoded ↔ header = header' := by
  constructor
  · intro hsame
    have hread := Header.ofEncoded_ofHeader h.legible
    rw [hsame, Header.ofEncoded_ofHeader h'.legible] at hread
    exact (congrArg ProtectedHeader.header (Except.ok.inj hread)).symm
  · rintro rfl
    rfl

/-- A ciphertext is bound to one header and one text of additional data. -/
theorem associatedData_ofHeader_eq_iff (h : header.FromText) (h' : header'.FromText)
    {aad aad' : Option String} :
    associatedData (ofHeader header) aad = associatedData (ofHeader header') aad' ↔
      header = header' ∧ aad = aad' := by
  have hdot (header : Header) : dot ∉ Bytes.ofText (ofHeader header).encoded :=
    Text.Base64Url.dot_notMem_of_decode (Text.Base64Url.decode_encode _)
  constructor
  · intro hsame
    have hbefore := congrArg (List.takeWhile (· ≠ dot)) hsame
    rw [takeWhile_associatedData (hdot header), takeWhile_associatedData (hdot header')] at hbefore
    have hencoded := Bytes.ofText_injective hbefore
    exact ⟨(encoded_eq_iff h h').1 hencoded,
      (associatedData_eq_iff_of_encoded_eq hencoded).1 hsame⟩
  · rintro ⟨rfl, rfl⟩
    rfl

/-- **The text of a protected header says everything that the header says.**  A header that was made
from a text and holds no doubles is read back from its own text.  So headers that differ in a
parameter, in a value or in the order of the parameters have different texts, and what a ciphertext
is bound to is different, whatever additional data there is.  Of a text that is read, nothing is
changed, and the header that it stands for can be written again. -/
theorem encoding_lossless :
    (∀ header : Header, header.FromText →
      ofEncoded (ofHeader header).encoded = .ok ⟨(ofHeader header).encoded, header⟩) ∧
    (∀ header header' : Header, header.FromText → header'.FromText →
      ((ofHeader header).encoded = (ofHeader header').encoded ↔ header = header') ∧
      ∀ aad aad' : Option String,
        associatedData (ofHeader header) aad = associatedData (ofHeader header') aad' ↔
          header = header' ∧ aad = aad') ∧
    ∀ (text : String) (head : ProtectedHeader), ofEncoded text = .ok head →
      head.encoded = text ∧
      (head.header.toJson.Integral →
        ofEncoded (ofHeader head.header).encoded =
          .ok ⟨(ofHeader head.header).encoded, head.header⟩) := by
  have hagain {header : Header} (h : header.FromText) :
      ofEncoded (ofHeader header).encoded = .ok ⟨(ofHeader header).encoded, header⟩ :=
    Header.ofEncoded_ofHeader h.legible
  refine ⟨fun header => hagain, fun header header' h h' =>
    ⟨encoded_eq_iff h h', fun aad aad' => associatedData_ofHeader_eq_iff h h'⟩,
    fun text head h => ⟨encoded_eq h, fun hintegral => ?_⟩⟩
  exact hagain (fromText_of_ofEncoded h hintegral)

/-- A text with blanks, an escape, a name that comes twice, the greatest of all integers and fill,
and the same header the other way round. -/
theorem encoding_lossless_of_padded_text :
    let text := "eyAiYSI6IDEsICJcdTAwNjIiOiBbXSwgImEiOiAxODQ0Njc0NDA3MzcwOTU1MTYxNSB9IA=="
    let greatest : Json := .number (.integer ⟨18446744073709551615, by decide⟩)
    let header : Header := ⟨[("a", greatest), ("b", .array [])]⟩
    let turned : Header := ⟨[("b", .array []), ("a", greatest)]⟩
    ofEncoded (ofHeader header).encoded = .ok ⟨(ofHeader header).encoded, header⟩ ∧
      associatedData (ofHeader header) none ≠ associatedData (ofHeader turned) none ∧
      ∃ head, ofEncoded text = .ok head ∧ head.header.render = header.render ∧
        head.encoded = text ∧
        ofEncoded (ofHeader head.header).encoded =
          .ok ⟨(ofHeader head.header).encoded, head.header⟩ := by
  intro text greatest header turned
  obtain ⟨hagain, hdifferent, hread⟩ := encoding_lossless
  have hheader : header.Legible Json.maxDepth :=
    ⟨⟨trivial, trivial, trivial⟩, ⟨by decide, trivial, trivial, trivial⟩, by decide⟩
  have hturned : turned.Legible Json.maxDepth :=
    ⟨⟨trivial, trivial, trivial⟩, ⟨by decide, trivial, trivial, trivial⟩, by decide⟩
  have hfrom : header.FromText := ⟨hheader.integral, _, Header.ofText_render hheader⟩
  have hfrom' : turned.FromText := ⟨hturned.integral, _, Header.ofText_render hturned⟩
  have htext : (ofEncoded text).toOption.any (fun head =>
      head.header.render = header.render && head.header.toJson.Integral) = true := by
    decide +kernel
  obtain ⟨head, hhead, hgiven⟩ := exists_eq_ok_of_any htext
  simp only [Bool.and_eq_true, decide_eq_true_eq] at hgiven
  obtain ⟨hkept, hwritten⟩ := hread text head hhead
  refine ⟨hagain header hfrom, fun h => ?_, head, hhead, hgiven.1, hkept, hwritten hgiven.2⟩
  have hsame := (((hdifferent header turned hfrom hfrom').2 none none).1 h).1
  exact absurd (congrArg (fun header => header.members.map Prod.fst) hsame) (by decide)

end ProtectedHeader

end SealedEnvelope
