import SealedEnvelope.Envelope.Header
import SealedEnvelope.Proofs.Json.Records
import SealedEnvelope.Text.Base64Url.RoundTrip

/-!
# Headers, there and back

A header that holds no doubles is read back from its text, with its parameters in their
order, and so a protected header is read back from the base64url text that it travels as.
-/

namespace SealedEnvelope

open Json (Reader Tree)

namespace Header

/-- A header that can travel in an envelope: it holds no doubles, does not name a
parameter twice, and nests at most 124 containers, which leaves three for the lists and
objects around it. -/
structure Portable (header : Header) : Prop where
  integral : header.toJson.Integral
  distinct : header.toJson.Distinct
  depth_le : header.toJson.depth ≤ 124

/-- A header that is read back where so many containers may be nested. -/
structure Legible (header : Header) (depth : Nat) : Prop where
  integral : header.toJson.Integral
  distinct : header.toJson.Distinct
  depth_le : header.toJson.depth ≤ depth

variable {ε : Type} {depth : Nat} {header : Header}

theorem Portable.legible (h : header.Portable) (hdepth : 124 ≤ depth) : header.Legible depth :=
  ⟨h.integral, h.distinct, Nat.le_trans h.depth_le hdepth⟩

/-- A header is read back from the tree of its text. -/
theorem reader_toJson (h : header.toJson.Distinct) (hdepth : header.toJson.depth ≤ depth) :
    (reader : Reader ε Header) depth (.ofJson header.toJson) = .ok header := by
  have hvalue := Tree.value?_ofJson header.toJson h hdepth
  rw [toJson, Tree.ofJson] at hvalue ⊢
  rw [reader, Reader.members, hvalue]
  rfl

/-- **Reading undoes writing** for headers. -/
theorem ofText_render (h : header.Legible Json.maxDepth) :
    (ofText (Bytes.ofText header.render) : Except (Json.Fault ε) Header) = .ok header := by
  rw [ofText, render, Reader.whole_render reader h.integral]
  exact reader_toJson h.distinct h.depth_le

/-- A protected header is read back from its text. -/
theorem ofEncoded_ofHeader (h : header.Legible Json.maxDepth) :
    ProtectedHeader.ofEncoded (ProtectedHeader.ofHeader header).encoded =
      .ok (ProtectedHeader.ofHeader header) := by
  rw [ProtectedHeader.ofHeader, ProtectedHeader.ofEncoded, Text.Base64Url.decode_encode]
  dsimp only
  rw [ofText_render h]

end Header
end SealedEnvelope
