import SealedEnvelope.Proofs.Reading.Jwk

/-!
# The list of a key's members

A key goes into a header as a list of members, and a ciphertext is bound to the text of the
header, so the list must not depend on anything but the key.  It does not: the members that a key
knows have their places, and the others follow in order of their names
(`Jwk.toJson_lossless`).

Reading takes the members one by one, and so does making the object that a text stands for.  One
member does the same to both (`Jwk.update_eq_add`), so after all of them the key has the texts of
the object's members and the rest of the members themselves (`Jwk.ofText_object`), where of
members with one name the last counts.
-/

namespace SealedEnvelope

open Json (Reader Tree Schema Field)

/-! ## Looking up what was added -/

namespace Json.Members

variable {members as bs : Members} {name : String}

theorem find?_cons (other : String) (value : Json) (rest : Members) (name : String) :
    find? ((other, value) :: rest) name = if name = other then some value else rest.find? name := by
  rw [find?, List.lookup_cons]
  by_cases h : name = other
  · rw [if_pos h, beq_iff_eq.2 h]
  · rw [if_neg h, beq_false_of_ne h]
    rfl

theorem find?_append (as bs : Members) (name : String) :
    find? (as ++ bs) name = (as.find? name).or (bs.find? name) := by
  induction as with
  | nil => rfl
  | cons member as ih =>
    obtain ⟨other, value⟩ := member
    rw [List.cons_append, find?_cons, find?_cons, ih]
    split <;> rfl

theorem find?_insert (members : Members) (name : String) (value : Json) (other : String) :
    (members.insert name value).find? other =
      if other = name then some value else members.find? other := by
  induction members with
  | nil => exact find?_cons name value [] other
  | cons head rest ih =>
    obtain ⟨first, old⟩ := head
    rw [insert]
    split
    · next heq =>
      subst heq
      rw [find?_cons, find?_cons]
      split <;> rfl
    · next hne =>
      rw [find?_cons, find?_cons, ih]
      by_cases h : other = first
      · rw [if_pos h, if_pos h, if_neg fun heq => hne (h ▸ heq)]
      · rw [if_neg h, if_neg h]

theorem find?_insertSorted (members : Members) (name : String) (value : Json) (other : String) :
    (members.insertSorted name value).find? other =
      if other = name then some value else members.find? other := by
  induction members with
  | nil => exact find?_cons name value [] other
  | cons head rest ih =>
    obtain ⟨first, old⟩ := head
    rw [insertSorted]
    split
    · next heq =>
      subst heq
      rw [find?_cons, find?_cons]
      split <;> rfl
    · next hne =>
      split
      · exact find?_cons name value _ other
      · rw [find?_cons, find?_cons, ih]
        by_cases h : other = first
        · rw [if_pos h, if_pos h, if_neg fun heq : other = name => hne (heq ▸ h)]
        · rw [if_neg h, if_neg h]

theorem find?_filter (members : Members) (p : String → Bool) (name : String) :
    find? (members.filter fun member => p member.1) name =
      if p name then members.find? name else none := by
  induction members with
  | nil => exact (ite_self none).symm
  | cons member members ih =>
    obtain ⟨other, value⟩ := member
    rw [List.filter_cons, find?_cons]
    dsimp only
    by_cases heq : name = other
    · subst heq
      rw [if_pos rfl]
      split
      · rw [find?_cons, if_pos rfl]
      · next hname => rw [ih, if_neg hname]
    · rw [if_neg heq, ← ih]
      split
      · rw [find?_cons, if_neg heq]
      · rfl

/-- Names in increasing order are distinct. -/
theorem Sorted.nodup (h : members.Sorted) : (members.map Prod.fst).Nodup :=
  List.pairwise_map.2 (h.imp fun {a b} hlt (heq : a.1 = b.1) =>
    String.lt_irrefl b.1 (heq ▸ hlt))

/-- Objects with the same values have the same members. -/
theorem perm_of_find?_eq (has : (as.map Prod.fst).Nodup) (hbs : (bs.map Prod.fst).Nodup)
    (h : ∀ name, as.find? name = bs.find? name) : as.Perm bs := by
  refine (List.perm_ext_iff_of_nodup has.of_map hbs.of_map).2 fun member => ?_
  rw [← find?_eq_some_iff has, ← find?_eq_some_iff hbs, h]

/-- Members have one order in which their names increase. -/
theorem Sorted.eq_of_perm (has : as.Sorted) (hbs : bs.Sorted) (h : as.Perm bs) : as = bs :=
  h.eq_of_pairwise (fun _ _ _ _ hlt hgt => absurd hlt (String.lt_asymm hgt)) has hbs

/-- Objects are the same exactly if they have the same values. -/
theorem same_iff_alike (has : (as.map Prod.fst).Nodup) (hbs : (bs.map Prod.fst).Nodup) :
    (Json.object as).same (.object bs) = true ↔ as.Alike bs := by
  rw [same, Bool.and_eq_true, decide_eq_true_eq]
  constructor
  · rintro ⟨hlength, hsame⟩
    exact alike_of_sameMembers has hlength hsame
  · intro halike
    have hnames : (as.map Prod.fst).Perm (bs.map Prod.fst) := by
      refine (List.perm_ext_iff_of_nodup has hbs).2 fun name => ?_
      rw [← not_iff_not, ← find?_eq_none_iff, ← find?_eq_none_iff, ← Option.not_isSome_iff_eq_none,
        ← Option.not_isSome_iff_eq_none, halike.isSome_eq name]
    refine ⟨by simpa using hnames.length_eq, sameMembers_iff.2 fun member hmem => ?_⟩
    have hname := halike member.1
    rw [(find?_eq_some_iff has).2 hmem] at hname
    generalize hb : bs.find? member.1 = found at hname
    cases hname with
    | some hsame => exact ⟨_, rfl, hsame⟩

end Json.Members

namespace Jwk

variable {ε : Type} {depth : Nat}

/-! ## The texts that a key knows -/

/-- The text of a member that a key knows. -/
def text? (jwk : Jwk) : String → Option String
  | "kty" => some jwk.kty
  | "crv" => some jwk.crv
  | "x" => some jwk.x
  | "y" => jwk.y
  | "kid" => jwk.kid
  | _ => none

/-- The text of a member that was read so far. -/
def Parts.text? (parts : Parts) : String → Option String
  | "kty" => parts.kty
  | "crv" => parts.crv
  | "x" => parts.x
  | "y" => parts.y
  | "kid" => parts.kid
  | _ => none

/-- The members that have a text, in the order of their names in `names`. -/
def listed (text? : String → Option String) : Json.Members :=
  names.filterMap fun name => (text? name).map fun text => (name, .string text)

theorem toMembers_eq (jwk : Jwk) : jwk.toMembers = listed jwk.text? ++ jwk.extras.members := by
  obtain ⟨kty, crv, x, y, kid, extras⟩ := jwk
  cases y <;> cases kid <;> rfl

theorem listed_congr {f g : String → Option String} (h : ∀ name ∈ names, f name = g name) :
    listed f = listed g :=
  List.filterMap_congr fun name hmem => by rw [h name hmem]

/-- The names that are listed are those with a text. -/
theorem map_listed (f : String → Option String) :
    (listed f).map Prod.fst = names.filter fun name => (f name).isSome := by
  rw [listed, List.map_filterMap, ← List.filterMap_eq_filter]
  refine List.filterMap_congr fun name _ => ?_
  cases hf : f name <;> simp [hf, Option.guard]

theorem mem_names_of_mem_listed {f : String → Option String} {member : String × Json}
    (h : member ∈ listed f) : member.1 ∈ names := by
  obtain ⟨name, hmem, h⟩ := List.mem_filterMap.1 h
  obtain ⟨text, -, rfl⟩ := Option.map_eq_some_iff.1 h
  exact hmem

theorem find?_listed (f : String → Option String) (name : String) :
    (listed f).find? name = if name ∈ names then (f name).map .string else none := by
  have hlisted : ∀ known : List String,
      Json.Members.find? (known.filterMap fun name =>
        (f name).map fun text => (name, Json.string text)) name =
      if name ∈ known then (f name).map .string else none := by
    intro known
    induction known with
    | nil => rfl
    | cons first rest ih =>
      by_cases heq : name = first
      · subst heq
        rw [if_pos List.mem_cons_self]
        cases hf : f name with
        | none =>
          rw [List.filterMap_cons_none (by rw [hf]; rfl), ih, hf]
          exact ite_self none
        | some text =>
          rw [List.filterMap_cons_some (by rw [hf]; rfl), Json.Members.find?_cons, if_pos rfl]
          rfl
      · have hiff : name ∈ first :: rest ↔ name ∈ rest := by
          rw [List.mem_cons, or_iff_right heq]
        simp only [hiff]
        cases hf : f first with
        | none => rw [List.filterMap_cons_none (by rw [hf]; rfl), ih]
        | some text =>
          rw [List.filterMap_cons_some (by rw [hf]; rfl), Json.Members.find?_cons, if_neg heq, ih]
  exact hlisted names

theorem Extras.find?_eq_none (extras : Extras) {name : String} (h : name ∈ names) :
    extras.members.find? name = none := by
  rw [Json.Members.find?_eq_none_iff]
  intro hmem
  obtain ⟨member, hmember, rfl⟩ := List.mem_map.1 hmem
  exact extras.unknown member hmember h

theorem find?_toMembers (jwk : Jwk) (name : String) :
    jwk.toMembers.find? name =
      if name ∈ names then (jwk.text? name).map .string else jwk.extras.members.find? name := by
  rw [toMembers_eq, Json.Members.find?_append, find?_listed]
  split
  · next hmem => rw [jwk.extras.find?_eq_none hmem, Option.or_none]
  · rfl

theorem nodup_toMembers (jwk : Jwk) : (jwk.toMembers.map Prod.fst).Nodup := by
  have hlisted : ((listed jwk.text?).map Prod.fst).Nodup := by
    rw [map_listed]
    exact List.Nodup.filter _ (by decide)
  rw [toMembers_eq, List.map_append]
  refine hlisted.append jwk.extras.sorted.nodup fun name hmem hmem' => ?_
  obtain ⟨member, hmember, rfl⟩ := List.mem_map.1 hmem
  obtain ⟨other, hother, heq⟩ := List.mem_map.1 hmem'
  exact jwk.extras.unknown other hother (heq ▸ mem_names_of_mem_listed hmember)

theorem distinct_toJson {jwk : Jwk} (h : Json.MembersDistinct jwk.extras.members) :
    jwk.toJson.Distinct := by
  refine ⟨jwk.nodup_toMembers, ?_⟩
  rw [toMembers_eq, Json.membersDistinct_append]
  refine ⟨Json.membersDistinct_iff.2 fun member hmem => ?_, h⟩
  obtain ⟨name, -, hmem⟩ := List.mem_filterMap.1 hmem
  obtain ⟨text, -, rfl⟩ := Option.map_eq_some_iff.1 hmem
  exact trivial

theorem bind_asString? (text : Option String) :
    (text.map Json.string).bind Json.asString? = text := by
  cases text <;> rfl

/-- Equality of keys, where the order of the members of an object inside does not count. -/
def same (a b : Jwk) : Bool :=
  names.all (fun name => a.text? name = b.text? name) &&
    (Json.object a.extras.members).same (.object b.extras.members)

/-- Keys are the same exactly if their lists of members are. -/
theorem same_toJson_iff (a b : Jwk) : a.toJson.same b.toJson = true ↔ a.same b = true := by
  rw [toJson, toJson, Json.Members.same_iff_alike a.nodup_toMembers b.nodup_toMembers, same,
    Bool.and_eq_true, Json.Members.same_iff_alike a.extras.sorted.nodup b.extras.sorted.nodup,
    List.all_eq_true]
  simp only [decide_eq_true_eq]
  constructor
  · refine fun halike => ⟨fun name hname => ?_, fun name => ?_⟩
    · have htext := halike.text_eq name
      rwa [find?_toMembers, find?_toMembers, if_pos hname, if_pos hname, bind_asString?,
        bind_asString?] at htext
    · by_cases hname : name ∈ names
      · rw [a.extras.find?_eq_none hname, b.extras.find?_eq_none hname]
        exact .none
      · have hvalue := halike name
        rwa [find?_toMembers, find?_toMembers, if_neg hname, if_neg hname] at hvalue
  · rintro ⟨htexts, halike⟩ name
    rw [find?_toMembers, find?_toMembers]
    split
    · next hname =>
      rw [htexts name hname]
      cases b.text? name with
      | none => exact .none
      | some text =>
        refine .some ?_
        rw [Json.same, decide_eq_true rfl]
    · exact halike name

/-! ## Reading, member by member -/

/-- What was read with one more member. -/
def Parts.add (parts : Parts) (name : String) (value : Json) : Parts :=
  match name with
  | "kty" => { parts with kty := value.asString? }
  | "crv" => { parts with crv := value.asString? }
  | "x" => { parts with x := value.asString? }
  | "y" => { parts with y := value.asString? }
  | "kid" => { parts with kid := value.asString? }
  | name => { parts with extras := parts.extras.insert name value }

theorem Parts.add_of_notMem (parts : Parts) {name : String} (h : name ∉ names) (value : Json) :
    parts.add name value = { parts with extras := parts.extras.insert name value } := by
  unfold add
  split
  case h_6 => rfl
  all_goals exact absurd (by decide) h

theorem Parts.text?_add (parts : Parts) (name : String) (value : Json) {other : String}
    (h : other ∈ names) : (parts.add name value).text? other =
      if other = name then value.asString? else parts.text? other := by
  by_cases hname : name ∈ names
  · simp only [names, List.mem_cons, List.not_mem_nil, or_false] at h hname
    rcases hname with rfl | rfl | rfl | rfl | rfl <;>
      rcases h with rfl | rfl | rfl | rfl | rfl <;> rfl
  · rw [if_neg fun heq : other = name => hname (heq ▸ h), add_of_notMem parts hname value]
    simp only [names, List.mem_cons, List.not_mem_nil, or_false] at h
    rcases h with rfl | rfl | rfl | rfl | rfl <;> rfl

theorem Parts.extras_add (parts : Parts) (name : String) (value : Json) :
    (parts.add name value).extras = parts.extras.insert name value := by
  by_cases hname : name ∈ names
  · rw [Extras.insert, dif_pos hname]
    simp only [names, List.mem_cons, List.not_mem_nil, or_false] at hname
    rcases hname with rfl | rfl | rfl | rfl | rfl <;> rfl
  · rw [add_of_notMem parts hname value]

theorem exists_text_of_read {name : String} {tree : Tree} {store : String → Parts → Parts}
    {update : Parts → Parts}
    (h : (Field.of name (Reader.text : Reader ε String) store).read depth tree = .ok update) :
    ∃ text, tree.value? depth = some (.string text) ∧ update = store text := by
  obtain ⟨text, hread, rfl⟩ := Field.of_read_eq_ok_iff.1 h
  obtain rfl := Reader.text_eq_ok_iff.1 hread
  exact ⟨text, rfl, rfl⟩

theorem exists_optional_of_read {name : String} {tree : Tree}
    {store : Option String → Parts → Parts} {update : Parts → Parts}
    (h : (Field.of name (Reader.text : Reader ε String).optional store).read depth tree =
      .ok update) :
    ∃ value, tree.value? depth = some value ∧ update = store value.asString? := by
  obtain ⟨text, hread, rfl⟩ := Field.of_read_eq_ok_iff.1 h
  rcases Reader.optional_eq_ok_iff.1 hread with ⟨rfl, rfl⟩ | ⟨-, text, htext, rfl⟩
  · exact ⟨.null, rfl, rfl⟩
  · obtain rfl := Reader.text_eq_ok_iff.1 htext
    exact ⟨.string text, rfl, rfl⟩

/-- **One member.**  What a member does to a key is what its value does. -/
theorem update_eq_add {name : String} {tree : Tree} {update : Parts → Parts}
    (h : (schema ε).update depth name tree = .ok update) :
    ∃ value, tree.value? depth = some value ∧ ∀ parts, update parts = parts.add name value := by
  by_cases hname : name ∈ names
  · simp only [names, List.mem_cons, List.not_mem_nil, or_false] at hname
    rcases hname with rfl | rfl | rfl | rfl | rfl
    · obtain ⟨text, hvalue, rfl⟩ := exists_text_of_read h
      exact ⟨.string text, hvalue, fun _ => rfl⟩
    · obtain ⟨text, hvalue, rfl⟩ := exists_text_of_read h
      exact ⟨.string text, hvalue, fun _ => rfl⟩
    · obtain ⟨text, hvalue, rfl⟩ := exists_text_of_read h
      exact ⟨.string text, hvalue, fun _ => rfl⟩
    · obtain ⟨value, hvalue, rfl⟩ := exists_optional_of_read h
      exact ⟨value, hvalue, fun _ => rfl⟩
    · obtain ⟨value, hvalue, rfl⟩ := exists_optional_of_read h
      exact ⟨value, hvalue, fun _ => rfl⟩
  · rw [Schema.update, field?_eq_none hname] at h
    change (Reader.value depth tree).map _ = .ok update at h
    obtain ⟨value, hread, rfl⟩ := map_eq_ok_iff.1 h
    refine ⟨value, ?_, fun parts => (parts.add_of_notMem hname value).symm⟩
    unfold Reader.value at hread
    split at hread
    · next hvalue => rw [hvalue, Except.ok.inj hread]
    · cases hread

/-- **All members.**  Where members are read, they have values, and these are added one after the
other. -/
theorem readMembers_eq_foldl {members : List (Option String × Tree)} {seen : List String}
    {parts parts' : Parts} (h : (schema ε).readMembers depth seen parts members = .ok parts') :
    ∃ entries, Tree.memberValues? depth members = some entries ∧
      parts' = entries.foldl (fun parts member => parts.add member.1 member.2) parts := by
  induction members generalizing seen parts with
  | nil =>
    cases h
    exact ⟨[], rfl, rfl⟩
  | cons member members ih =>
    obtain ⟨_, tree⟩ := member
    obtain ⟨name, update, hname, hupdate, -, h⟩ := Schema.readMembers_cons_eq_ok_iff.1 h
    obtain rfl : _ = some name := hname
    obtain ⟨value, hvalue, hadd⟩ := update_eq_add hupdate
    obtain ⟨entries, hentries, rfl⟩ := ih h
    refine ⟨(name, value) :: entries, ?_, by rw [List.foldl_cons, hadd]⟩
    rw [Tree.memberValues?, hvalue, hentries]
    rfl

/-- After all members, the texts are those of the object that they make up. -/
theorem text?_foldl_add (entries : Json.Members) {parts : Parts} {members : Json.Members}
    (h : ∀ name ∈ names, parts.text? name = (members.find? name).bind Json.asString?) :
    ∀ name ∈ names,
      (entries.foldl (fun parts member => parts.add member.1 member.2) parts).text? name =
        ((entries.foldl (fun members member => members.insert member.1 member.2) members).find?
          name).bind Json.asString? := by
  induction entries generalizing parts members with
  | nil => exact h
  | cons entry entries ih =>
    refine ih fun name hname => ?_
    rw [Parts.text?_add parts entry.1 entry.2 hname, Json.Members.find?_insert, h name hname]
    split <;> rfl

theorem Extras.find?_insert (extras : Extras) (name : String) (value : Json) {other : String}
    (h : other ∉ names) : (extras.insert name value).members.find? other =
      if other = name then some value else extras.members.find? other := by
  by_cases hname : name ∈ names
  · rw [insert, dif_pos hname, if_neg fun heq : other = name => h (heq ▸ hname)]
  · rw [insert, dif_neg hname]
    exact Json.Members.find?_insertSorted _ _ _ _

/-- Further members that are added one after the other are those of the object that they make
up. -/
theorem Extras.find?_foldl_insert (entries : Json.Members) {extras : Extras}
    {members : Json.Members}
    (h : ∀ name, name ∉ names → extras.members.find? name = members.find? name) {name : String}
    (hname : name ∉ names) :
    (entries.foldl (fun extras member => extras.insert member.1 member.2) extras).members.find?
        name =
      (entries.foldl (fun members member => members.insert member.1 member.2) members).find?
        name := by
  induction entries generalizing extras members with
  | nil => exact h name hname
  | cons entry entries ih =>
    refine ih fun name hname => ?_
    rw [find?_insert extras entry.1 entry.2 hname, Json.Members.find?_insert, h name hname]

theorem extras_foldl_add (entries : Json.Members) (parts : Parts) :
    (entries.foldl (fun parts member => parts.add member.1 member.2) parts).extras =
      entries.foldl (fun extras member => extras.insert member.1 member.2) parts.extras := by
  induction entries generalizing parts with
  | nil => rfl
  | cons entry entries ih => rw [List.foldl_cons, List.foldl_cons, ih, Parts.extras_add]

/-- Further members may be added in any order. -/
theorem Extras.foldl_insert_of_perm (extras : Extras) {stored : Json.Members}
    (h : stored.Perm extras.members) :
    stored.foldl (fun done member => done.insert member.1 member.2) Extras.empty = extras := by
  generalize hdone : stored.foldl _ Extras.empty = done
  have hnodup : (stored.map Prod.fst).Nodup := (h.map Prod.fst).nodup_iff.2 extras.sorted.nodup
  refine Extras.ext (done.sorted.eq_of_perm extras.sorted ?_)
  refine Json.Members.perm_of_find?_eq done.sorted.nodup extras.sorted.nodup fun name => ?_
  by_cases hname : name ∈ names
  · rw [done.find?_eq_none hname, extras.find?_eq_none hname]
  · have hfind : done.members.find? name = (Json.Members.ofList stored).find? name := by
      rw [← hdone]
      exact find?_foldl_insert stored (fun _ _ => rfl) hname
    rw [hfind, Json.Members.ofList_of_nodup hnodup]
    refine Option.ext fun value => ?_
    rw [Json.Members.find?_eq_some_iff hnodup, Json.Members.find?_eq_some_iff extras.sorted.nodup,
      h.mem_iff]

theorem text?_blank (name : String) : (schema ε).blank.text? name = none := by
  unfold Parts.text?
  split <;> rfl

theorem text?_of_finish {parts : Parts} {jwk : Jwk} (h : (schema ε).finish parts = .ok jwk) :
    (∀ name, parts.text? name = jwk.text? name) ∧ parts.extras = jwk.extras := by
  obtain ⟨kty, crv, x, y, kid, extras⟩ := parts
  rcases kty with _ | kty
  · cases h
  rcases crv with _ | crv
  · cases h
  rcases x with _ | x
  · cases h
  cases h
  exact ⟨fun _ => rfl, rfl⟩

/-- **What a key has of its text.**  A text that stands for a key stands for an object, and the key
has the object's texts and further members. -/
theorem ofText_object {text : Bytes} {jwk : Jwk}
    (h : (ofText text : Except (Json.Fault ε) Jwk) = .ok jwk) :
    ∃ object : Header, (Header.ofText text : Except (Json.Fault ε) Header) = .ok object ∧
      (∀ name ∈ names, jwk.text? name = object.text? name) ∧
      jwk.extras.members.Perm (object.members.filter fun member => member.1 ∉ names) := by
  obtain ⟨hread, hrest⟩ := Reader.whole_eq_ok_iff.1 h
  obtain ⟨below, parts, hbelow, hcollected, hfinish⟩ := Schema.read_eq_ok_iff.1 hread
  obtain rfl : below = 126 := (Nat.succ.inj hbelow).symm
  generalize htree : (Tree.build (Json.Token.scan text)).1 = tree at hcollected
  cases hcollected with
  | items hpositional => cases hpositional
  | @members members _ hmembers =>
    obtain ⟨entries, hentries, rfl⟩ := readMembers_eq_foldl hmembers
    obtain ⟨htexts, hextras⟩ := text?_of_finish hfinish
    have hvalue : (Tree.object members true).value? Json.maxDepth =
        some (Header.toJson ⟨Json.Members.ofList entries⟩) := by
      rw [Json.maxDepth, Tree.value?, if_pos rfl, hentries]
      rfl
    refine ⟨⟨Json.Members.ofList entries⟩, ?_, fun name hname => ?_, ?_⟩
    · refine Reader.whole_eq_ok_iff.2 ⟨?_, hrest⟩
      rw [htree]
      exact Header.reader_eq_ok_iff.2 hvalue
    · rw [← htexts name]
      exact text?_foldl_add entries (fun name _ => text?_blank name) name hname
    · have hnodup := (Json.Members.ofList_spec entries).1
      refine Json.Members.perm_of_find?_eq jwk.extras.sorted.nodup
        (hnodup.sublist (List.filter_sublist.map Prod.fst)) fun name => ?_
      rw [Json.Members.find?_filter _ fun name => decide (name ∉ names)]
      by_cases hname : name ∈ names
      · rw [if_neg (by simpa using hname), jwk.extras.find?_eq_none hname]
      · rw [if_pos (by simpa using hname), ← hextras, extras_foldl_add]
        exact Extras.find?_foldl_insert entries (fun _ _ => rfl) hname

/-- A key is its texts and its further members. -/
theorem eq_of_texts {a b : Jwk} (htexts : ∀ name ∈ names, a.text? name = b.text? name)
    (hextras : a.extras.members.Perm b.extras.members) : a = b := by
  have hmembers := Extras.ext (a.extras.sorted.eq_of_perm b.extras.sorted hextras)
  have hkty := htexts "kty" (by decide)
  have hcrv := htexts "crv" (by decide)
  have hx := htexts "x" (by decide)
  have hy := htexts "y" (by decide)
  have hkid := htexts "kid" (by decide)
  obtain ⟨_, _, _, _, _, _⟩ := a
  obtain ⟨_, _, _, _, _, _⟩ := b
  cases hmembers
  cases hkty
  cases hcrv
  cases hx
  cases hy
  cases hkid
  rfl

section Read

variable {text text' : Bytes} {jwk jwk' : Jwk}

/-- The members of a key that was read have distinct names throughout. -/
theorem distinct_toJson_of_ofText (h : (ofText text : Except (Json.Fault ε) Jwk) = .ok jwk) :
    jwk.toJson.Distinct := by
  obtain ⟨object, hobject, -, hperm⟩ := ofText_object h
  obtain ⟨hdistinct, -⟩ := Header.reader_sound (Reader.whole_eq_ok_iff.1 hobject).1
  refine distinct_toJson (Json.membersDistinct_iff.2 fun member hmem => ?_)
  exact Json.membersDistinct_iff.1 hdistinct.2 member
    (List.mem_of_mem_filter (hperm.mem_iff.1 hmem))

theorem toJson_eq_iff (h : (ofText text : Except (Json.Fault ε) Jwk) = .ok jwk)
    (h' : (ofText text' : Except (Json.Fault ε) Jwk) = .ok jwk') :
    jwk.toJson = jwk'.toJson ↔ jwk = jwk' := by
  constructor
  · intro hsame
    have hread := @ofJson_toJson ε jwk (distinct_toJson_of_ofText h)
    rw [hsame, ofJson_toJson jwk' (distinct_toJson_of_ofText h')] at hread
    exact (Except.ok.inj hread).symm
  · rintro rfl
    rfl

/-- Where the objects of two texts differ in the order of members only, there is one key. -/
theorem eq_of_object_perm (h : (ofText text : Except (Json.Fault ε) Jwk) = .ok jwk)
    (h' : (ofText text' : Except (Json.Fault ε) Jwk) = .ok jwk') {object object' : Header}
    (hobject : (Header.ofText text : Except (Json.Fault ε) Header) = .ok object)
    (hobject' : (Header.ofText text' : Except (Json.Fault ε) Header) = .ok object')
    (hperm : object.members.Perm object'.members) : jwk = jwk' := by
  obtain ⟨_, heq, htexts, hextras⟩ := ofText_object h
  obtain rfl := Except.ok.inj (hobject.symm.trans heq)
  obtain ⟨_, heq', htexts', hextras'⟩ := ofText_object h'
  obtain rfl := Except.ok.inj (hobject'.symm.trans heq')
  have hnodup := (Header.reader_sound (Reader.whole_eq_ok_iff.1 hobject).1).1.1
  refine eq_of_texts (fun name hname => ?_) ((hextras.trans (hperm.filter _)).trans hextras'.symm)
  have hfind : object.members.find? name = object'.members.find? name :=
    Option.ext fun value => by
      rw [Json.Members.find?_eq_some_iff hnodup,
        Json.Members.find?_eq_some_iff ((hperm.map Prod.fst).nodup_iff.1 hnodup), hperm.mem_iff]
  rw [htexts name hname, htexts' name hname, Header.text?, Header.get?, hfind]
  rfl

/-- A key in a header is the key that is taken from it. -/
theorem ephemeralKey_insert (h : jwk.toJson.Distinct) (header : Header) :
    (header.insert "epk" jwk.toJson).ephemeralKey = .ok (some jwk) := by
  have hget : (header.insert "epk" jwk.toJson).get? "epk" = some jwk.toJson := by
    rw [Header.insert, Header.get?, Json.Members.find?_insert, if_pos rfl]
  rw [Header.ephemeralKey, hget]
  dsimp only
  rw [ofJson_toJson jwk h]

/-- **A key loses nothing on the way through its JSON value**, and the value depends on nothing but
the key.  The value lists the texts that the key knows, in one order, and then each further member
of the text that the key was read from, by name: in whatever order they came, and in whatever order
they are put in again.  The value stands for the key, also as a parameter of a header, and two keys
have one value only if they are one key. -/
theorem toJson_lossless {text : Bytes} {jwk : Jwk}
    (h : (ofText text : Except (Json.Fault ε) Jwk) = .ok jwk) :
    (∃ (object : Header) (others : Json.Members),
      (Header.ofText text : Except (Json.Fault ε) Header) = .ok object ∧
      (∀ name ∈ ["kty", "crv", "x"], (object.text? name).isSome) ∧
      others.Perm (object.members.filter fun member => member.1 ∉ names) ∧ others.Sorted ∧
      jwk.toMembers = listed object.text? ++ others ∧ others = jwk.extras.members) ∧
    (∀ stored : Json.Members, stored.Perm jwk.extras.members →
      stored.foldl (fun done member => done.insert member.1 member.2) Extras.empty = jwk.extras) ∧
    (ofJson jwk.toJson : Except (Json.Fault ε) Jwk) = .ok jwk ∧
    (∀ header : Header, (header.insert "epk" jwk.toJson).ephemeralKey = .ok (some jwk)) ∧
    ∀ (text' : Bytes) (jwk' : Jwk), (ofText text' : Except (Json.Fault ε) Jwk) = .ok jwk' →
      (jwk.toJson = jwk'.toJson ↔ jwk = jwk') ∧
      (jwk.toJson.same jwk'.toJson = true ↔ jwk.same jwk' = true) ∧
      ∀ object object' : Header,
        (Header.ofText text : Except (Json.Fault ε) Header) = .ok object →
        (Header.ofText text' : Except (Json.Fault ε) Header) = .ok object' →
        object.members.Perm object'.members → jwk.toJson = jwk'.toJson := by
  have hdistinct := distinct_toJson_of_ofText h
  refine ⟨?_, fun stored => jwk.extras.foldl_insert_of_perm, ofJson_toJson jwk hdistinct,
    ephemeralKey_insert hdistinct, fun text' jwk' h' =>
      ⟨toJson_eq_iff h h', same_toJson_iff jwk jwk', fun object object' hobject hobject' hperm =>
        congrArg toJson (eq_of_object_perm h h' hobject hobject' hperm)⟩⟩
  obtain ⟨object, hobject, htexts, hextras⟩ := ofText_object h
  refine ⟨object, jwk.extras.members, hobject, fun name hname => ?_, hextras, jwk.extras.sorted,
    by rw [toMembers_eq, listed_congr htexts], rfl⟩
  rw [← htexts name (List.mem_append_left ["y", "kid"] hname)]
  simp only [List.mem_cons, List.not_mem_nil, or_false] at hname
  rcases hname with rfl | rfl | rfl <;> rfl

end Read

/-- A key with an escape, a `null`, a member that comes twice and others in no order. -/
theorem toJson_lossless_of_repeated_name :
    let text := Bytes.ofText (
      "\x7b\"z\": 1, \"kty\":\"OKP\",\"y\":null,\"é\":[],\"x\":\"\\u0041A\"," ++
      "\"crv\":\"X25519\",\"a\":\x7b\x7d,\"kid\":\"k\",\"z\":\"\"\x7d")
    let written :=
      "\x7b\"epk\":\x7b\"kty\":\"OKP\",\"crv\":\"X25519\",\"x\":\"AA\",\"kid\":\"k\"," ++
      "\"a\":\x7b\x7d,\"z\":\"\",\"é\":[]\x7d\x7d"
    ∃ jwk, (ofText text : Except (Json.Fault Empty) Jwk) = .ok jwk ∧
      (ofJson jwk.toJson : Except (Json.Fault Empty) Jwk) = .ok jwk ∧
      (Header.empty.insert "epk" jwk.toJson).render = written ∧
      (Header.empty.insert "epk" jwk.toJson).ephemeralKey = .ok (some jwk) := by
  intro text written
  have hgiven : (ofText text : Except (Json.Fault Empty) Jwk).toOption.any (fun jwk =>
      (Header.empty.insert "epk" jwk.toJson).render = written) = true := by
    decide +kernel
  obtain ⟨jwk, hread, hwritten⟩ := exists_eq_ok_of_any hgiven
  obtain ⟨-, -, hagain, hinsert, -⟩ := toJson_lossless hread
  exact ⟨jwk, hread, hagain, of_decide_eq_true hwritten, hinsert .empty⟩

end Jwk
end SealedEnvelope
