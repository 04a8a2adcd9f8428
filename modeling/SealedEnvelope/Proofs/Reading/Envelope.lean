import SealedEnvelope.Envelope.Text
import SealedEnvelope.Proofs.Reading.Records
import SealedEnvelope.Proofs.Reading.Values

/-!
# What is read of an envelope

`Envelope.ReadFrom` says what an envelope has to do with the tree that it was read from: where
each of its parts comes from, and what is known of it besides.  Both layouts of a text, as an
object and as an array, and both forms of the recipients are in it.
-/

namespace SealedEnvelope

open Json (Reader Tree Schema Field)
open Text

theorem octetsReader_eq_ok_iff {depth : Nat} {tree : Tree} {bytes : Bytes} :
    octetsReader depth tree = .ok bytes ↔
      ∃ text, tree = .string (some text) ∧ Base64Url.decode text = .ok bytes := by
  rw [octetsReader, Reader.textThen_eq_ok_iff]
  exact exists_congr fun text => and_congr_right fun _ => mapError_eq_ok_iff

theorem ProtectedHeader.encoded_eq {encoded : String} {header : ProtectedHeader}
    (h : ProtectedHeader.ofEncoded encoded = .ok header) : header.encoded = encoded := by
  unfold ProtectedHeader.ofEncoded at h
  split at h
  · cases h
  · split at h
    · cases h
    · cases h
      rfl

theorem ProtectedHeader.reader_eq_ok_iff {depth : Nat} {tree : Tree} {header : ProtectedHeader} :
    ProtectedHeader.reader depth tree = .ok header ↔
      ∃ text, tree = .string (some text) ∧ ProtectedHeader.ofEncoded text = .ok header := by
  rw [ProtectedHeader.reader, Reader.textThen_eq_ok_iff]
  exact exists_congr fun text => and_congr_right fun _ => mapError_eq_ok_iff

/-! ## Headers -/

/-- A header that was read from what a text has for it, inside of which so many containers may
be nested.  A missing header is empty. -/
def Header.ReadFrom (header : Header) (below : Nat) (found : Option Tree) : Prop :=
  (found = none ∨ found = some .null) ∧ header = .empty ∨
    ∃ tree, found = some tree ∧ tree.value? below = some header.toJson

namespace Header.ReadFrom

variable {header header' : Header} {below below' : Nat} {found : Option Tree}

/-- A missing header takes one container, too, when it is written. -/
theorem sound (h : header.ReadFrom below found) :
    header.toJson.Distinct ∧ header.toJson.depth ≤ max 1 below := by
  rcases h with ⟨-, rfl⟩ | ⟨tree, -, hvalue⟩
  · exact ⟨⟨List.nodup_nil, trivial⟩, Nat.le_max_left 1 below⟩
  · obtain ⟨hdistinct, hdepth⟩ := tree.value?_sound hvalue
    exact ⟨hdistinct, Nat.le_trans hdepth (Nat.le_max_right 1 below)⟩

/-- The same is read in every place. -/
theorem eq (h : header.ReadFrom below found) (h' : header'.ReadFrom below' found) :
    header = header' := by
  have hmissing {header : Header} {below : Nat} {tree : Tree} (hfound : found = some tree)
      (hvalue : tree.value? below = some header.toJson) : ¬(found = none ∨ found = some .null) := by
    rw [hfound]
    rintro (hnone | hnull)
    · cases hnone
    · obtain rfl := Option.some.inj hnull
      rw [Tree.value?] at hvalue
      cases hvalue
  rcases h with ⟨hnone, rfl⟩ | ⟨tree, hfound, hvalue⟩ <;>
    rcases h' with ⟨hnone', rfl⟩ | ⟨tree', hfound', hvalue'⟩
  · rfl
  · exact absurd hnone (hmissing hfound' hvalue')
  · exact absurd hnone' (hmissing hfound hvalue)
  · obtain rfl : tree = tree' := Option.some.inj (hfound.symm.trans hfound')
    obtain ⟨members⟩ := header
    obtain ⟨members'⟩ := header'
    exact congrArg Header.mk (Json.object.inj (Tree.value?_unique hvalue hvalue'))

end Header.ReadFrom

/-- Octets that were read from what a text has for them. -/
def Bytes.ReadFrom (octets : Bytes) (found : Option Tree) : Prop :=
  ∃ text, found = some (.string (some text)) ∧ Base64Url.decode text = .ok octets

theorem Bytes.ReadFrom.eq {octets octets' : Bytes} {found : Option Tree}
    (h : octets.ReadFrom found) (h' : octets'.ReadFrom found) : octets = octets' := by
  obtain ⟨text, hfound, hdecode⟩ := h
  obtain ⟨text', hfound', hdecode'⟩ := h'
  rw [hfound] at hfound'
  cases hfound'
  exact Except.ok.inj (hdecode.symm.trans hdecode')

/-! ## Recipients -/

namespace Recipient

theorem owns : schema.Owns "header" Parts.header ∧
    schema.Owns "encrypted_key" Parts.encryptedKey := by
  refine ⟨⟨?_, nofun⟩, ⟨?_, nofun⟩⟩ <;> intro field hmem <;>
    simp only [schema, List.mem_cons, List.not_mem_nil, or_false] at hmem <;>
    rcases hmem with rfl | rfl <;>
    first | exact .inl rfl | exact .inr (Field.keeps_of_store fun _ _ => rfl)

/-- A recipient that was read from what a text has for its members. -/
structure ReadFrom (recipient : Recipient) (below : Nat) (header encryptedKey : Option Tree) :
    Prop where
  header : recipient.header.ReadFrom below header
  encryptedKey : recipient.encryptedKey.ReadFrom encryptedKey

theorem ReadFrom.eq {x y : Recipient} {below below' : Nat} {header encryptedKey : Option Tree}
    (hx : x.ReadFrom below header encryptedKey) (hy : y.ReadFrom below' header encryptedKey) :
    x = y := by
  obtain ⟨_, _⟩ := x
  obtain ⟨_, _⟩ := y
  obtain rfl := hx.header.eq hy.header
  obtain rfl := hx.encryptedKey.eq hy.encryptedKey
  rfl

theorem readFrom_of_read {recipient : Recipient} {depth : Nat} {tree : Tree}
    (h : schema.read depth tree = .ok recipient) :
    ∃ below, depth = below + 1 ∧ recipient.ReadFrom below (schema.found? tree "header")
      (schema.found? tree "encrypted_key") := by
  obtain ⟨below, ⟨header, encryptedKey⟩, hdepth, hcollected, hfinish⟩ := Schema.read_eq_ok_iff.1 h
  have hnodup : (schema.fields.map Field.name).Nodup := by decide
  cases encryptedKey with
  | none => cases hfinish
  | some key =>
    cases hfinish
    obtain ⟨value, hvalue, hkey⟩ :=
      hcollected.required hnodup rfl owns.2 (fun _ _ => by rfl) rfl rfl
    obtain ⟨text, rfl, hdecode⟩ := octetsReader_eq_ok_iff.1 hkey
    refine ⟨below, hdepth, ?_, text, hvalue, hdecode⟩
    rcases hcollected.part_eq hnodup rfl owns.1 (fun _ _ => by rfl) with
      ⟨hmissing, hnone⟩ | ⟨tree, read, hfound, hread, hsome⟩
    · obtain rfl : header = none := hnone
      exact .inl ⟨.inl hmissing, rfl⟩
    · obtain rfl : header = some read := hsome
      exact .inr ⟨tree, hfound, Header.reader_eq_ok_iff.1 hread⟩

end Recipient

/-! ## Envelopes -/

theorem nodup_of_firstRepeated? {seen names : List String} (h : firstRepeated? seen names = none) :
    names.Nodup ∧ ∀ name ∈ names, name ∉ seen := by
  induction names generalizing seen with
  | nil => exact ⟨List.nodup_nil, nofun⟩
  | cons name names ih =>
    rw [firstRepeated?] at h
    split at h
    · cases h
    · next hfirst =>
      obtain ⟨hnodup, hseen⟩ := ih h
      refine ⟨List.nodup_cons.2 ⟨fun hmem => hseen name hmem List.mem_cons_self, hnodup⟩, ?_⟩
      refine List.forall_mem_cons.2 ⟨fun hmem => hfirst (List.contains_iff_mem.2 hmem), ?_⟩
      exact fun other hmem hother => hseen other hmem (List.mem_cons_of_mem name hother)

namespace Envelope

variable {envelope : Envelope} {tree : Tree} {below : Nat}

theorem nodup_names : (schema.fields.map Field.name).Nodup := by decide

/-- Each part of a draft is changed by one field only. -/
theorem owns :
    schema.Owns "protected" Draft.protectedHeader ∧ schema.Owns "unprotected" Draft.unprotected ∧
    schema.Owns "recipients" Draft.recipients ∧ schema.Owns "header" Draft.header ∧
    schema.Owns "encrypted_key" Draft.encryptedKey ∧ schema.Owns "aad" Draft.aad ∧
    schema.Owns "iv" Draft.iv ∧ schema.Owns "ciphertext" Draft.ciphertext ∧
    schema.Owns "tag" Draft.tag := by
  refine ⟨⟨?_, nofun⟩, ⟨?_, nofun⟩, ⟨?_, nofun⟩, ⟨?_, nofun⟩, ⟨?_, nofun⟩, ⟨?_, nofun⟩,
    ⟨?_, nofun⟩, ⟨?_, nofun⟩, ⟨?_, nofun⟩⟩ <;> intro field hmem <;>
    simp only [schema, List.mem_cons, List.not_mem_nil, or_false] at hmem <;>
    rcases hmem with rfl | rfl | rfl | rfl | rfl | rfl | rfl | rfl | rfl <;>
    first | exact .inl rfl | exact .inr (Field.keeps_of_store fun _ _ => rfl)

/-- A text has nothing for a field. -/
def Absent (tree : Tree) (name : String) : Prop :=
  schema.found? tree name = none ∨ schema.found? tree name = some .null

/-- The recipients that were read: from the list, or if there is none, the only one. -/
inductive RecipientsFrom (below : Nat) (tree : Tree) : List Recipient → Bool → Prop
  | list {trees : List Tree} {recipients : List Recipient}
      (hfound : schema.found? tree "recipients" = some (.array trees true))
      (hread : List.Forall₂ (fun entry recipient => recipient.ReadFrom (below - 2)
        (Recipient.schema.found? entry "header") (Recipient.schema.found? entry "encrypted_key"))
        trees recipients) :
      RecipientsFrom below tree recipients false
  | single {recipient : Recipient} (habsent : Absent tree "recipients")
      (hread : recipient.ReadFrom below (schema.found? tree "header")
        (schema.found? tree "encrypted_key")) :
      RecipientsFrom below tree [recipient] true

/-- There is less room in a header when there are a list and a recipient around it. -/
theorem RecipientsFrom.sound {recipients : List Recipient} {flattened : Bool}
    (h : RecipientsFrom below tree recipients flattened) :
    ∀ recipient ∈ recipients, recipient.header.toJson.Distinct ∧
      recipient.header.toJson.depth ≤ max 1 (if flattened then below else below - 2) := by
  cases h with
  | list hfound hread =>
    clear hfound
    induction hread with
    | nil => exact nofun
    | cons hfirst _ ih => exact List.forall_mem_cons.2 ⟨hfirst.header.sound, ih⟩
  | single habsent hread =>
    intro recipient hmem
    obtain rfl := List.mem_singleton.1 hmem
    exact hread.header.sound

/-- Only a single recipient is read without a list around it. -/
theorem RecipientsFrom.length_eq_one {recipients : List Recipient}
    (h : RecipientsFrom below tree recipients true) : recipients.length = 1 := by
  cases h
  rfl

/-- One tree has a list with a single entry, the other one has the members of that entry beside
its own. -/
def OneRecipient (tree tree' : Tree) : Prop :=
  ∃ entry closed, schema.found? tree "recipients" = some (.array [entry] closed) ∧
    Absent tree' "recipients" ∧
    Recipient.schema.found? entry "header" = schema.found? tree' "header" ∧
    Recipient.schema.found? entry "encrypted_key" = schema.found? tree' "encrypted_key"

/-- It makes no difference to what is read in which form a single recipient is given. -/
theorem RecipientsFrom.eq_of_oneRecipient {tree' : Tree} {below' : Nat}
    {recipients recipients' : List Recipient} {flattened flattened' : Bool}
    (hforms : OneRecipient tree tree') (h : RecipientsFrom below tree recipients flattened)
    (h' : RecipientsFrom below' tree' recipients' flattened') : recipients = recipients' := by
  obtain ⟨entry, closed, hfound, habsent, hheader, hkey⟩ := hforms
  cases h with
  | single hmissing => rcases hmissing with hmissing | hmissing <;> cases hfound.symm.trans hmissing
  | list hlist hread =>
    cases hfound.symm.trans hlist
    obtain ⟨recipient, _, hrecipient, hnil, rfl⟩ := List.forall₂_cons_left_iff.1 hread
    obtain rfl := List.forall₂_nil_left_iff.1 hnil
    cases h' with
    | list hlist' => rcases habsent with habsent | habsent <;> cases habsent.symm.trans hlist'
    | single _ hrecipient' =>
      rw [hheader, hkey] at hrecipient
      rw [hrecipient.eq hrecipient']

/-- An envelope that was read from a tree, inside of which so many containers may be nested. -/
structure ReadFrom (envelope : Envelope) (below : Nat) (tree : Tree) : Prop where
  protectedHeader : ∃ text, schema.found? tree "protected" = some (.string (some text)) ∧
    ProtectedHeader.ofEncoded text = .ok envelope.protectedHeader
  unprotected : ∀ header ∈ envelope.unprotected,
    header.toJson.Distinct ∧ header.toJson.depth ≤ below
  recipients : RecipientsFrom below tree envelope.recipients envelope.flattened
  aad : Absent tree "aad" ∧ envelope.aad = none ∨
    ∃ text, schema.found? tree "aad" = some (.string (some text)) ∧ envelope.aad = some text
  nonce : envelope.payload.nonce.ReadFrom (schema.found? tree "iv")
  ciphertext : envelope.payload.ciphertext.ReadFrom (schema.found? tree "ciphertext")
  tag : envelope.payload.tag.ReadFrom (schema.found? tree "tag")
  kids_nodup : envelope.kids.Nodup

/-- The protected header is read again from the text that it was read from. -/
theorem ReadFrom.ofEncoded_eq (h : envelope.ReadFrom below tree) :
    ProtectedHeader.ofEncoded envelope.protectedHeader.encoded = .ok envelope.protectedHeader := by
  obtain ⟨encoded, -, hheader⟩ := h.protectedHeader
  rw [ProtectedHeader.encoded_eq hheader, hheader]

theorem toEnvelope_eq_ok {parts : Parts} (h : parts.toEnvelope = .ok envelope) :
    ∃ recipients flattened, parts.recipients? = some (recipients, flattened) ∧
      (recipients.filterMap Recipient.kid?).Nodup ∧
      envelope = ⟨parts.protectedHeader, parts.unprotected, recipients, parts.aad, parts.payload,
        flattened⟩ := by
  unfold Parts.toEnvelope at h
  split at h
  · cases h
  · next recipients flattened hrecipients =>
    split at h
    · cases h
    · next hnone =>
      exact ⟨recipients, flattened, hrecipients, (nodup_of_firstRepeated? hnone).1,
        (Except.ok.inj h).symm⟩

/-- The members of an envelope are what was collected, if nothing is missing that it needs. -/
theorem finish_eq_ok {draft : Draft} {parts : Parts} (h : schema.finish draft = .ok parts) :
    draft = ⟨some parts.protectedHeader, parts.unprotected, parts.recipients, parts.header,
      parts.encryptedKey, parts.aad, some parts.payload.nonce, some parts.payload.ciphertext,
      some parts.payload.tag⟩ := by
  obtain
    ⟨protectedHeader, unprotected, recipients, header, encryptedKey, aad, iv, ciphertext, tag⟩ :=
    draft
  cases protectedHeader <;> cases iv <;> cases ciphertext <;> cases tag <;> cases h
  rfl

section Collected

variable {parts : Parts}

/-- Octets that an envelope needs are in its text. -/
theorem octets_of_collected {draft : Draft} (h : schema.Collected below tree draft) {name : String}
    {store : Bytes → Draft → Draft} {part : Draft → Option Bytes}
    (hname : schema.field? name = some (.of name octetsReader store))
    (howns : schema.Owns name part)
    (hstore : ∀ b record, part (store b record) = some b) (hblank : part schema.blank = none)
    {octets : Bytes} (hpart : part draft = some octets) :
    octets.ReadFrom (schema.found? tree name) := by
  obtain ⟨value, hvalue, hread⟩ := h.required nodup_names hname howns hstore hblank hpart
  obtain ⟨text, rfl, hdecode⟩ := octetsReader_eq_ok_iff.1 hread
  exact ⟨text, hvalue, hdecode⟩

theorem recipientsFrom_of_collected {draft : Draft} (h : schema.Collected below tree draft)
    (hfinish : schema.finish draft = .ok parts) {recipients : List Recipient} {flattened : Bool}
    (hrecipients : parts.recipients? = some (recipients, flattened)) :
    RecipientsFrom below tree recipients flattened := by
  obtain ⟨-, -, hlist, hheader, hkey, -⟩ := owns
  obtain rfl := finish_eq_ok hfinish
  obtain ⟨_, _, listed, header, encryptedKey, _, _⟩ := parts
  rcases h.optional nodup_names rfl hlist (fun _ _ => by rfl) rfl with
    ⟨habsent, hnone⟩ | ⟨value, read, hvalue, -, hread, hsome⟩
  · -- Without a list there has to be a key, while the header may be missing.
    obtain rfl : listed = none := hnone
    rcases h.optional nodup_names rfl hkey (fun _ _ => by rfl) rfl with
      ⟨-, hnone⟩ | ⟨value, key, hvalue, -, hread, hsome⟩
    · obtain rfl : encryptedKey = none := hnone
      cases hrecipients
    · obtain rfl : encryptedKey = some key := hsome
      obtain ⟨text, rfl, hdecode⟩ := octetsReader_eq_ok_iff.1 hread
      cases hrecipients
      refine .single habsent ⟨?_, text, hvalue, hdecode⟩
      rcases h.optional nodup_names rfl hheader (fun _ _ => by rfl) rfl with
        ⟨hmissing, hnone⟩ | ⟨tree, read, hfound, -, hread, hsome⟩
      · obtain rfl : header = none := hnone
        exact .inl ⟨hmissing, rfl⟩
      · obtain rfl : header = some read := hsome
        exact .inr ⟨tree, hfound, Header.reader_eq_ok_iff.1 hread⟩
  · obtain rfl : listed = some read := hsome
    cases hrecipients
    obtain ⟨trees, inside, rfl, rfl, hitems⟩ := Reader.list_eq_ok_iff.1 hread
    refine .list hvalue (hitems.imp fun item recipient hitem => ?_)
    obtain ⟨inner, rfl, hfrom⟩ := Recipient.readFrom_of_read hitem
    exact hfrom

end Collected

/-- **What is known of an envelope that was read.** -/
theorem readFrom_of_reader {depth : Nat} (h : reader depth tree = .ok envelope) :
    ∃ below, depth = below + 1 ∧ envelope.ReadFrom below tree := by
  obtain ⟨parts, hparts, h⟩ := bind_eq_ok_iff.1 h
  obtain ⟨below, draft, hdepth, hcollected, hfinish⟩ := Schema.read_eq_ok_iff.1 hparts
  obtain ⟨recipients, flattened, hrecipients, hkids, rfl⟩ :=
    toEnvelope_eq_ok (mapError_eq_ok_iff.1 h)
  have hfrom := recipientsFrom_of_collected hcollected hfinish hrecipients
  obtain ⟨hprotected, hunprotected, -, -, -, haad, hiv, hciphertext, htag⟩ := owns
  obtain rfl := finish_eq_ok hfinish
  refine ⟨below, hdepth, ?_⟩
  exact
    { protectedHeader := by
        obtain ⟨value, hvalue, hread⟩ :=
          hcollected.required nodup_names rfl hprotected (fun _ _ => by rfl) rfl rfl
        obtain ⟨text, rfl, hencoded⟩ := ProtectedHeader.reader_eq_ok_iff.1 hread
        exact ⟨text, hvalue, hencoded⟩
      unprotected := by
        intro header hmem
        rcases hcollected.optional nodup_names rfl hunprotected (fun _ _ => by rfl) rfl with
          ⟨-, hnone⟩ | ⟨_, read, -, -, hread, hsome⟩
        · cases hmem.symm.trans hnone
        · obtain rfl := Option.some.inj (hmem.symm.trans hsome)
          exact Header.reader_sound hread
      recipients := hfrom
      aad := by
        rcases hcollected.optional nodup_names rfl haad (fun _ _ => by rfl) rfl with
          habsent | ⟨value, text, hvalue, -, hread, hsome⟩
        · exact .inl habsent
        · obtain rfl := Reader.text_eq_ok_iff.1 hread
          exact .inr ⟨text, hvalue, hsome⟩
      nonce := octets_of_collected hcollected rfl hiv (fun _ _ => by rfl) rfl rfl
      ciphertext := octets_of_collected hcollected rfl hciphertext (fun _ _ => by rfl) rfl rfl
      tag := octets_of_collected hcollected rfl htag (fun _ _ => by rfl) rfl rfl
      kids_nodup := hkids }

end Envelope

end SealedEnvelope
