import SealedEnvelope.Key.VerificationMethod
import SealedEnvelope.Proofs.RoundTrip.Multikey

/-!
# Verification methods are resolved exactly

`VerificationMethod.Describes` says which identity a record of a public key stands for: what kinds
of records there are, which members they need, and which octets they give for the key.
`resolve` finds this identity and finds nothing else (`resolve_eq_ok_iff`).

A record of a type that belongs to one algorithm may give its octets alone or behind a tag.  Octets
that could be read both ways would make one record stand for two keys.  There are none
(`Bare.not_tagged`): octets alone have 32 octets, or their first octet is the tag of a point, and
this is the first octet of no algorithm's tag.
-/

namespace SealedEnvelope

/-! ## Types of methods -/

namespace MethodType

/-- The types that belong to one algorithm, by name. -/
def dedicated : List (String × Algorithm) :=
  [("Ed25519VerificationKey2018", .ed25519), ("Ed25519VerificationKey2020", .ed25519),
   ("X25519KeyAgreementKey2019", .x25519), ("X25519KeyAgreementKey2020", .x25519),
   ("EcdsaSecp256k1VerificationKey2019", .secp256k1)]

theorem ofName_name {type : MethodType} (h : type ∈ supported) : ofName type.name = type := by
  revert type
  decide

/-- A name either is that of the type that it is read as, or is not that of a type. -/
theorem name_ofName (name : String) : (ofName name).name = name := by
  rw [ofName]
  cases hfind : supported.find? (·.name = name) with
  | none => rfl
  | some type => simpa using List.find?_some hfind

theorem ofName_eq_multikey_iff {name : String} : ofName name = .multikey ↔ name = "Multikey" := by
  constructor
  · intro h
    rw [← name_ofName name, h]
    rfl
  · rintro rfl
    exact ofName_name (.head _)

theorem algorithm?_ofName_eq_some_iff {name : String} {algorithm : Algorithm} :
    (ofName name).algorithm? = some algorithm ↔ (name, algorithm) ∈ dedicated := by
  constructor
  · intro h
    rw [← name_ofName name]
    generalize ofName name = type at h
    cases type <;> cases h <;> decide
  · exact (by decide : ∀ entry ∈ dedicated, (ofName entry.1).algorithm? = some entry.2)
      (name, algorithm)

end MethodType

namespace VerificationMethod

open MethodType (dedicated)

/-! ## Octets alone and behind a tag -/

/-- Octets that are a key alone, as far as length and first octet tell. -/
def Bare : Algorithm → Bytes → Prop
  | .ed25519, bytes | .x25519, bytes => bytes.length = 32
  | .secp256k1, bytes =>
    bytes.length = 33 ∧ (bytes.head? = some 0x02 ∨ bytes.head? = some 0x03) ∨
      bytes.length = 65 ∧ bytes.head? = some 0x04

/-- How the octets of a key are given: alone or behind the tag of the algorithm. -/
inductive Presents (algorithm : Algorithm) : (material bytes : Bytes) → Prop
  | alone {bytes : Bytes} (h : Bare algorithm bytes) : Presents algorithm bytes bytes
  | tagged {bytes : Bytes} (h : (Multikey.wrap algorithm bytes).length ≠ 32) :
      Presents algorithm (Multikey.wrap algorithm bytes) bytes

variable {algorithm other : Algorithm} {bytes material : Bytes} {key : Key}

theorem isRaw_iff : isRaw algorithm bytes = true ↔ bytes.length = 32 ∨ Bare algorithm bytes := by
  unfold isRaw
  by_cases hlength : bytes.length = 32
  · rw [if_pos hlength]
    exact iff_of_true rfl (.inl hlength)
  · rw [if_neg hlength, or_iff_right hlength]
    cases algorithm with
    | ed25519 => exact iff_of_false Bool.false_ne_true hlength
    | x25519 => exact iff_of_false Bool.false_ne_true hlength
    | secp256k1 =>
      cases bytes with
      | nil => simp [Bare]
      | cons first rest =>
        simp only [Bare, List.head?_cons, Option.some.injEq]
        split
        · next htag =>
          have hother : first ≠ 0x04 := by rcases htag with rfl | rfl <;> decide
          simp only [decide_eq_true_eq, htag, hother, and_true, and_false, or_false]
        · next htag =>
          rw [Bool.and_eq_true, decide_eq_true_eq, decide_eq_true_eq,
            or_iff_right fun h => htag h.2]
          exact and_comm

/-- Octets behind a tag look like a key alone only if all of them together are 32 octets. -/
theorem Bare.length_wrap (h : Bare algorithm (Multikey.wrap other bytes)) :
    (Multikey.wrap other bytes).length = 32 := by
  cases algorithm with
  | ed25519 => exact h
  | x25519 => exact h
  | secp256k1 => cases other <;> simp [Bare, Multikey.wrap, Algorithm.tag] at h

/-- How many octets are read as a key. -/
theorem length_of_ofPublicBytes (h : Key.ofPublicBytes algorithm bytes = .ok key) :
    bytes.length = 32 ∧ algorithm ≠ .secp256k1 ∨
      (bytes.length = 33 ∨ bytes.length = 65) ∧ algorithm = .secp256k1 := by
  obtain ⟨rfl, hspells⟩ := Key.ofPublicBytes_eq_ok_iff.1 h
  cases hspells with
  | ed25519 point => exact .inl ⟨point.octets.property, nofun⟩
  | x25519 coordinate => exact .inl ⟨coordinate.property, nofun⟩
  | secp256k1 h => exact .inr ⟨h.length, rfl⟩

/-- A key behind its tag has more octets than a key alone. -/
theorem length_wrap_of_ofPublicBytes (h : Key.ofPublicBytes algorithm bytes = .ok key) :
    (Multikey.wrap algorithm bytes).length ≠ 32 := by
  have hwrap : (Multikey.wrap algorithm bytes).length = bytes.length + 2 := rfl
  have hlength := length_of_ofPublicBytes h
  omega

/-- **No octets are a key alone and a key behind a tag.** -/
theorem Bare.not_tagged (h : Bare algorithm (Multikey.wrap other bytes)) :
    Key.ofPublicBytes other bytes ≠ .ok key :=
  fun hkey => length_wrap_of_ofPublicBytes hkey h.length_wrap

/-- The octets of a key as they are written are taken for a key alone. -/
theorem bare_publicBytes (key : Key) : Bare key.algorithm key.publicBytes := by
  cases key with
  | ed25519 point secret => exact point.octets.property
  | x25519 coordinate secret => exact coordinate.property
  | secp256k1 point secret => exact .inl (point.canonical_toBytes rfl)

/-- Octets that are taken for a key alone, and are one, are so for their length and first octet. -/
theorem bare_of_isRaw (hraw : isRaw algorithm bytes = true)
    (hkey : Key.ofPublicBytes algorithm bytes = .ok key) : Bare algorithm bytes := by
  refine (isRaw_iff.1 hraw).elim (fun hlength => ?_) (·)
  rcases length_of_ofPublicBytes hkey with ⟨-, halgorithm⟩ | ⟨hlong, -⟩
  · cases algorithm with
    | ed25519 => exact hlength
    | x25519 => exact hlength
    | secp256k1 => exact absurd rfl halgorithm
  · -- For a point 32 octets are taken for a key alone as well, but they are not read as one.
    omega

theorem keyOfMaterial_eq_ok_iff :
    keyOfMaterial algorithm material = .ok key ↔
      ∃ bytes, Presents algorithm material bytes ∧ Key.ofPublicBytes algorithm bytes = .ok key := by
  rw [keyOfMaterial]
  split
  · next hraw =>
    constructor
    · exact fun hkey => ⟨material, .alone (bare_of_isRaw hraw hkey), hkey⟩
    · rintro ⟨bytes, halone | htagged, hkey⟩
      · exact hkey
      · exact absurd ((isRaw_iff.1 hraw).elim (·) Bare.length_wrap) htagged
  · next hraw =>
    rw [isRaw_iff, not_or] at hraw
    constructor
    · intro h
      obtain ⟨⟨found, bytes⟩, hunwrap, hfound⟩ := bind_eq_ok_iff.1 h
      obtain rfl := Multikey.unwrap_eq_ok_iff.1 hunwrap
      dsimp only at hfound
      split at hfound
      · next hsame =>
        obtain rfl := hsame
        exact ⟨bytes, .tagged hraw.1, hfound⟩
      · cases hfound
    · rintro ⟨bytes, halone | htagged, hkey⟩
      · exact absurd halone hraw.2
      · rw [Multikey.unwrap_wrap]
        exact (if_pos rfl).trans hkey

/-! ## Records -/

variable {method : VerificationMethod} {identity : Identity}

/-- The octets that a record gives in one of its two members, and only one. -/
inductive Gives (method : VerificationMethod) : Bytes → Prop
  | multibase {text : String} {material : Bytes} (htext : method.publicKeyMultibase = some text)
      (hother : method.publicKeyBase58 = none) (h : Multibase.decode text = .ok material) :
      Gives method material
  | base58 {text : String} {material : Bytes} (hother : method.publicKeyMultibase = none)
      (htext : method.publicKeyBase58 = some text)
      (h : Multibase.decode ("z" ++ text) = .ok material) : Gives method material

/-- The name of a key: an identifier with a `#` in front stands behind the controller. -/
def fullName (id controller : String) : String :=
  if id.toList.head? = some '#' then controller ++ id else id

/-- Which identity a record stands for. -/
inductive Describes (method : VerificationMethod) : Identity → Prop
  | multikey {id controller text : String} {algorithm : Algorithm} {bytes : Bytes} {key : Key}
      (hid : method.id = some id) (hcontroller : method.controller = some controller)
      (htype : method.type = some "Multikey") (htext : method.publicKeyMultibase = some text)
      (hdecode : Multibase.decode text = .ok (Multikey.wrap algorithm bytes))
      (hkey : Key.ofPublicBytes algorithm bytes = .ok key) :
      Describes method ⟨key, fullName id controller⟩
  | ofDedicated {id controller name : String} {algorithm : Algorithm} {material bytes : Bytes}
      {key : Key} (hid : method.id = some id) (hcontroller : method.controller = some controller)
      (htype : method.type = some name) (hname : (name, algorithm) ∈ dedicated)
      (hgives : method.Gives material) (hpresents : Presents algorithm material bytes)
      (hkey : Key.ofPublicBytes algorithm bytes = .ok key) :
      Describes method ⟨key, fullName id controller⟩

theorem required_eq_ok_iff {field : Option String} {name text : String} :
    required field name = .ok text ↔ field = some text := by
  cases field <;> simp [required]

theorem kid_eq_ok_iff {kid : String} :
    method.kid = .ok kid ↔ ∃ id controller, method.id = some id ∧
      method.controller = some controller ∧ kid = fullName id controller := by
  simp only [VerificationMethod.kid, bind_eq_ok_iff, required_eq_ok_iff]
  constructor
  · rintro ⟨id, hid, controller, hcontroller, h⟩
    exact ⟨id, controller, hid, hcontroller, (Except.ok.inj h).symm⟩
  · rintro ⟨id, controller, hid, hcontroller, rfl⟩
    exact ⟨id, hid, controller, hcontroller, rfl⟩

theorem material_eq_ok_iff : method.material = .ok material ↔ method.Gives material := by
  constructor
  · intro h
    rw [VerificationMethod.material] at h
    split at h
    · next text htext hother => exact .multibase htext hother (mapError_eq_ok_iff.1 h)
    · next text hother htext => exact .base58 hother htext (mapError_eq_ok_iff.1 h)
    · cases h
    · cases h
  · rintro (⟨htext, hother, h⟩ | ⟨hother, htext, h⟩)
    · rw [VerificationMethod.material, htext, hother]
      exact mapError_eq_ok_iff.2 h
    · rw [VerificationMethod.material, htext, hother]
      exact mapError_eq_ok_iff.2 h

theorem methodType_eq_ok_iff {type : MethodType} :
    method.methodType = .ok type ↔
      ∃ name, method.type = some name ∧ MethodType.ofName name = type := by
  simp only [VerificationMethod.methodType, bind_eq_ok_iff, required_eq_ok_iff, Except.ok.injEq]

/-- **A record is resolved to the identity that it stands for, and to nothing else.** -/
theorem resolve_eq_ok_iff : method.resolve = .ok identity ↔ method.Describes identity := by
  constructor
  · intro h
    obtain ⟨type, htype, h⟩ := bind_eq_ok_iff.1 h
    obtain ⟨kid, hkid, h⟩ := bind_eq_ok_iff.1 h
    obtain ⟨name, hname, htype⟩ := methodType_eq_ok_iff.1 htype
    obtain ⟨id, controller, hid, hcontroller, rfl⟩ := kid_eq_ok_iff.1 hkid
    split at h
    · obtain ⟨text, htext, h⟩ := bind_eq_ok_iff.1 h
      obtain ⟨⟨algorithm, bytes⟩, hdecode, h⟩ := bind_eq_ok_iff.1 h
      obtain ⟨key, hkey, h⟩ := bind_eq_ok_iff.1 h
      obtain rfl := Except.ok.inj h
      rw [MethodType.ofName_eq_multikey_iff.1 htype] at hname
      exact .multikey hid hcontroller hname (required_eq_ok_iff.1 htext)
        (Multikey.decode_eq_ok_iff.1 hdecode) hkey
    · next algorithm _ halgorithm =>
      obtain ⟨material, hmaterial, h⟩ := bind_eq_ok_iff.1 h
      obtain ⟨key, hkey, h⟩ := bind_eq_ok_iff.1 h
      obtain rfl := Except.ok.inj h
      obtain ⟨bytes, hpresents, hkey⟩ := keyOfMaterial_eq_ok_iff.1 hkey
      rw [← htype] at halgorithm
      exact .ofDedicated hid hcontroller hname
        (MethodType.algorithm?_ofName_eq_some_iff.1 halgorithm) (material_eq_ok_iff.1 hmaterial)
        hpresents hkey
    · cases h
  · rintro (⟨hid, hcontroller, htype, htext, hdecode, hkey⟩ |
      ⟨hid, hcontroller, htype, hname, hgives, hpresents, hkey⟩)
    · refine bind_eq_ok_iff.2 ⟨_, methodType_eq_ok_iff.2 ⟨_, htype, rfl⟩, bind_eq_ok_iff.2
        ⟨_, kid_eq_ok_iff.2 ⟨_, _, hid, hcontroller, rfl⟩, ?_⟩⟩
      rw [MethodType.ofName_eq_multikey_iff.2 rfl]
      exact bind_eq_ok_iff.2 ⟨_, required_eq_ok_iff.2 htext, bind_eq_ok_iff.2
        ⟨_, Multikey.decode_eq_ok_iff.2 hdecode, bind_eq_ok_iff.2 ⟨_, hkey, rfl⟩⟩⟩
    · refine bind_eq_ok_iff.2 ⟨_, methodType_eq_ok_iff.2 ⟨_, htype, rfl⟩, bind_eq_ok_iff.2
        ⟨_, kid_eq_ok_iff.2 ⟨_, _, hid, hcontroller, rfl⟩, ?_⟩⟩
      have halgorithm := MethodType.algorithm?_ofName_eq_some_iff.2 hname
      split
      · next hmultikey => rw [hmultikey] at halgorithm; cases halgorithm
      · next hsome _ =>
        obtain rfl := Option.some.inj (hsome.symm.trans halgorithm)
        exact bind_eq_ok_iff.2 ⟨_, material_eq_ok_iff.2 hgives, bind_eq_ok_iff.2
          ⟨_, keyOfMaterial_eq_ok_iff.2 ⟨_, hpresents, hkey⟩, rfl⟩⟩
      · next hnone _ => rw [hnone] at halgorithm; cases halgorithm

/-- What a record stands for is a public key without its secret. -/
theorem Describes.toPublic_eq (h : method.Describes identity) :
    identity.key.toPublic = identity.key := by
  cases h with
  | multikey hid hcontroller htype htext hdecode hkey =>
    exact (Key.ofPublicBytes_eq_ok_iff.1 hkey).2.toPublic_eq
  | ofDedicated hid hcontroller htype hname hgives hpresents hkey =>
    exact (Key.ofPublicBytes_eq_ok_iff.1 hkey).2.toPublic_eq

theorem Describes.kid_eq (h : method.Describes identity) : method.kid = .ok identity.kid := by
  cases h with
  | multikey hid hcontroller htype htext hdecode hkey =>
    exact kid_eq_ok_iff.2 ⟨_, _, hid, hcontroller, rfl⟩
  | ofDedicated hid hcontroller htype hname hgives hpresents hkey =>
    exact kid_eq_ok_iff.2 ⟨_, _, hid, hcontroller, rfl⟩

/-- The kind of the key is the one that the type belongs to, or that the tag says. -/
theorem Describes.algorithm_eq (h : method.Describes identity) :
    (∃ name, method.type = some name ∧ (name, identity.algorithm) ∈ dedicated) ∨
      method.type = some "Multikey" ∧ ∃ text bytes, method.publicKeyMultibase = some text ∧
        Multikey.decode text = .ok (identity.algorithm, bytes) := by
  cases h with
  | multikey hid hcontroller htype htext hdecode hkey =>
    obtain ⟨rfl, -⟩ := Key.ofPublicBytes_eq_ok_iff.1 hkey
    exact .inr ⟨htype, _, _, htext, Multikey.decode_eq_ok_iff.2 hdecode⟩
  | ofDedicated hid hcontroller htype hname hgives hpresents hkey =>
    obtain ⟨rfl, -⟩ := Key.ofPublicBytes_eq_ok_iff.1 hkey
    exact .inl ⟨_, htype, hname⟩

/-- Each name belongs to one algorithm. -/
theorem algorithm_unique {name : String} (h : (name, algorithm) ∈ dedicated)
    (h' : (name, other) ∈ dedicated) : algorithm = other := by
  rw [← MethodType.algorithm?_ofName_eq_some_iff] at h h'
  exact Option.some.inj (h.symm.trans h')

theorem multikey_notMem_dedicated : ("Multikey", algorithm) ∉ dedicated := by
  cases algorithm <;> decide

theorem Describes.algorithm_of_dedicated (h : method.Describes identity) {name : String}
    (htype : method.type = some name) (hname : (name, algorithm) ∈ dedicated) :
    identity.algorithm = algorithm := by
  rcases h.algorithm_eq with ⟨own, hown, halgorithm⟩ | ⟨hmultikey, -⟩
  · obtain rfl := Option.some.inj (htype.symm.trans hown)
    exact algorithm_unique halgorithm hname
  · obtain rfl := Option.some.inj (htype.symm.trans hmultikey)
    exact absurd hname multikey_notMem_dedicated

theorem Describes.algorithm_of_multikey (h : method.Describes identity) {text : String}
    (htype : method.type = some "Multikey") (htext : method.publicKeyMultibase = some text)
    (hdecode : Multikey.decode text = .ok (algorithm, bytes)) : identity.algorithm = algorithm := by
  rcases h.algorithm_eq with ⟨own, hown, halgorithm⟩ | ⟨-, own, read, hown, hread⟩
  · obtain rfl := Option.some.inj (htype.symm.trans hown)
    exact absurd halgorithm multikey_notMem_dedicated
  · obtain rfl := Option.some.inj (htext.symm.trans hown)
    exact (Prod.mk.inj (Except.ok.inj (hread.symm.trans hdecode))).1

/-- Two records with the same name stand for the same identity if they give the same public key. -/
theorem Describes.eq_of_publicBytes_eq {a b : VerificationMethod} {x y : Identity}
    (ha : a.Describes x) (hb : b.Describes y) (hid : a.id = b.id)
    (hcontroller : a.controller = b.controller) (halgorithm : x.algorithm = y.algorithm)
    (hbytes : x.key.publicBytes = y.key.publicBytes) : x = y := by
  obtain ⟨first, kid⟩ := x
  obtain ⟨second, kid'⟩ := y
  have hkids : kid = kid' := by
    have hkid := ha.kid_eq
    rw [VerificationMethod.kid, hid, hcontroller] at hkid
    exact Except.ok.inj (hkid.symm.trans hb.kid_eq)
  have hkeys : first = second :=
    calc first = first.toPublic := ha.toPublic_eq.symm
      _ = second.toPublic := Key.toPublic_eq_iff.2 ⟨halgorithm, hbytes⟩
      _ = second := hb.toPublic_eq
  rw [hkids, hkeys]

/-- The octets that are written for a key present it alone as well as behind their tag. -/
theorem presents_publicBytes {key : Key}
    (h : material = key.publicBytes ∨ material = Multikey.wrap key.algorithm key.publicBytes) :
    Presents key.algorithm material key.publicBytes := by
  rcases h with rfl | rfl
  · exact .alone (bare_publicBytes key)
  · exact .tagged (length_wrap_of_ofPublicBytes (Key.ofPublicBytes_publicBytes key))

/-- **Records are resolved exactly and without ambiguity.**  A record is resolved to the identity
that it stands for, which has no secret, and to nothing else.  No octets can be read both as a key
alone and as a key behind a tag, not even for different algorithms.  Records that have the same
name and give the same public key are resolved to the same identity: every key can be given alone,
behind its tag and as a multikey, in every multibase encoding and in plain base 58. -/
theorem resolve_unambiguous :
    (∀ method identity, resolve method = .ok identity ↔ method.Describes identity) ∧
    (∀ method identity, resolve method = .ok identity → identity.hasSecret = false ∧
      (∀ id controller, method.id = some id → method.controller = some controller →
        identity.kid = fullName id controller) ∧
      (∀ name algorithm, method.type = some name → (name, algorithm) ∈ dedicated →
        identity.algorithm = algorithm) ∧
      (∀ text algorithm bytes, method.type = some "Multikey" →
        method.publicKeyMultibase = some text → Multikey.decode text = .ok (algorithm, bytes) →
        identity.algorithm = algorithm)) ∧
    (∀ algorithm other material bytes, Bare algorithm material →
      material = Multikey.wrap other bytes →
      material.length = 32 ∧ ∀ key, Key.ofPublicBytes other bytes ≠ .ok key) ∧
    (∀ a b first second, resolve a = .ok first → resolve b = .ok second → a.id = b.id →
      a.controller = b.controller → first.algorithm = second.algorithm →
      first.key.publicBytes = second.key.publicBytes → first = second) ∧
    ∀ (key : Key) (id controller name text : String) (material : Bytes),
      (name, key.algorithm) ∈ dedicated →
      material = key.publicBytes ∨ material = Multikey.wrap key.algorithm key.publicBytes →
      (Multibase.decode text = .ok material →
        resolve ⟨some id, some name, some controller, some text, none⟩ =
          .ok ⟨key.toPublic, fullName id controller⟩) ∧
      (Multibase.decode ("z" ++ text) = .ok material →
        resolve ⟨some id, some name, some controller, none, some text⟩ =
          .ok ⟨key.toPublic, fullName id controller⟩) ∧
      ∀ own, Multikey.decode own = .ok (key.algorithm, key.publicBytes) →
        resolve ⟨some id, some "Multikey", some controller, some own, none⟩ =
          .ok ⟨key.toPublic, fullName id controller⟩ := by
  refine ⟨fun _ _ => resolve_eq_ok_iff, fun method identity h => ?_, ?_,
    fun a b first second ha hb => ?_, ?_⟩
  · have hdescribes := resolve_eq_ok_iff.1 h
    refine ⟨?_, fun id controller hid hcontroller => ?_,
      fun _ _ => hdescribes.algorithm_of_dedicated,
      fun _ _ _ => hdescribes.algorithm_of_multikey⟩
    · rw [Identity.hasSecret, ← hdescribes.toPublic_eq, Key.hasSecret_toPublic]
    · exact Except.ok.inj (hdescribes.kid_eq.symm.trans
        (kid_eq_ok_iff.2 ⟨id, controller, hid, hcontroller, rfl⟩))
  · rintro algorithm other _ bytes hbare rfl
    exact ⟨hbare.length_wrap, fun key => hbare.not_tagged⟩
  · exact (resolve_eq_ok_iff.1 ha).eq_of_publicBytes_eq (resolve_eq_ok_iff.1 hb)
  · intro key id controller name text material hname hmaterial
    have hpresents := presents_publicBytes hmaterial
    have hkey := Key.ofPublicBytes_publicBytes key
    refine ⟨fun h => ?_, fun h => ?_, fun own h => ?_⟩
    · exact resolve_eq_ok_iff.2
        (.ofDedicated rfl rfl rfl hname (.multibase rfl rfl h) hpresents hkey)
    · exact resolve_eq_ok_iff.2
        (.ofDedicated rfl rfl rfl hname (.base58 rfl rfl h) hpresents hkey)
    · exact resolve_eq_ok_iff.2
        (.multikey rfl rfl rfl rfl (Multikey.decode_eq_ok_iff.1 h) hkey)

/-- A key that three records give, behind its tag and alone. -/
theorem resolve_unambiguous_of_three_records :
    let own := "z6LSqPZfn9krvgXma2icTMKf2uVcYhKXsudCmPoUzqGYW24U"
    let alone := "EiPWFqwzqDp2UeLqvhohiKH8hYnRBJT3tR5oWNd1neHi"
    let record (type : String) :=
      VerificationMethod.mk (some "#6LSqPZfn") (some type) (some "did:a")
    ∃ identity, resolve (record "Multikey" (some own) none) = .ok identity ∧
      resolve (record "X25519KeyAgreementKey2020" (some own) none) = .ok identity ∧
      resolve (record "X25519KeyAgreementKey2019" none (some alone)) = .ok identity ∧
      identity.kid = "did:a#6LSqPZfn" ∧ identity.hasSecret = false := by
  intro own alone record
  have hgiven : (Multikey.decode own).toOption.any (fun read =>
      read.1 = .x25519 && read.2.length = 32 &&
        (Multibase.decode ("z" ++ alone)).toOption.any (· = read.2)) = true := by
    decide +kernel
  obtain ⟨⟨algorithm, bytes⟩, hdecode, hgiven⟩ := exists_eq_ok_of_any hgiven
  simp only [Bool.and_eq_true, decide_eq_true_eq] at hgiven
  obtain ⟨⟨rfl, hlength⟩, halone⟩ := hgiven
  obtain ⟨_, hread, hsame⟩ := exists_eq_ok_of_any halone
  obtain rfl := of_decide_eq_true hsame
  have hnewer : ("X25519KeyAgreementKey2020", Algorithm.x25519) ∈ dedicated := by decide
  have holder : ("X25519KeyAgreementKey2019", Algorithm.x25519) ∈ dedicated := by decide
  have hname : fullName "#6LSqPZfn" "did:a" = "did:a#6LSqPZfn" := by decide
  obtain ⟨-, hresolved, -, -, hresolve⟩ := resolve_unambiguous
  let key := Key.x25519 ⟨_, hlength⟩ none
  have htagged := hresolve key "#6LSqPZfn" "did:a" _ own _ hnewer (.inr rfl)
  have hbare := hresolve key "#6LSqPZfn" "did:a" _ alone _ holder (.inl rfl)
  have hmultikey := htagged.2.2 own hdecode
  exact ⟨_, hmultikey, htagged.1 (Multikey.decode_eq_ok_iff.1 hdecode), hbare.2.1 hread, hname,
    (hresolved _ _ hmultikey).1⟩

end VerificationMethod
end SealedEnvelope
