import SealedEnvelope.Key.Jwk
import SealedEnvelope.Proofs.Json.Records

/-!
# Public keys in JSON, there and back

A key loses nothing on the way through its JSON value: the members that it knows come back
to their places, an absent `y` or `kid` stays absent, and the further members, which are
kept in order of their names, are added one behind the other.
-/

namespace SealedEnvelope

open Json (Tree Reader Schema)

namespace Json.Members

/-- A member whose name comes last is added at the end. -/
theorem insertSorted_of_lt {members : Members} {name : String}
    (h : ∀ member ∈ members, member.1 < name) (value : Json) :
    members.insertSorted name value = members ++ [(name, value)] := by
  induction members with
  | nil => rfl
  | cons head rest ih =>
    obtain ⟨other, old⟩ := head
    have hlt : other < name := h (other, old) List.mem_cons_self
    have hne : name ≠ other := by
      rintro rfl
      exact String.lt_irrefl _ hlt
    have hge : ¬name < other := fun hgt => String.lt_irrefl _ (String.lt_trans hlt hgt)
    rw [insertSorted, if_neg hne, if_neg hge,
      ih fun member hmem => h member (List.mem_cons_of_mem _ hmem), List.cons_append]

/-- Sorted members are collected as they are. -/
theorem foldl_insertSorted {members done : Members} (h : (done ++ members).Sorted) :
    members.foldl (fun done member => done.insertSorted member.1 member.2) done =
      done ++ members := by
  induction members generalizing done with
  | nil => rw [List.foldl_nil, List.append_nil]
  | cons member members ih =>
    have hlast : ∀ other ∈ done, other.1 < member.1 := fun other hmem =>
      (List.pairwise_append.1 h).2.2 other hmem member List.mem_cons_self
    rw [List.append_cons] at h ⊢
    rw [List.foldl_cons, insertSorted_of_lt hlast, ih h]

end Json.Members

namespace Jwk

theorem Extras.ext {a b : Extras} (h : a.members = b.members) : a = b := by
  cases a
  cases b
  cases h
  rfl

/-- Adding the further members of a key one after the other makes them up again. -/
theorem Extras.foldl_insert (extras : Extras) :
    extras.members.foldl (fun done member => done.insert member.1 member.2) Extras.empty =
      extras := by
  have hmembers : ∀ (members : Json.Members) (done : Extras),
      (∀ member ∈ members, member.1 ∉ names) →
      (members.foldl (fun done member => done.insert member.1 member.2) done).members =
        members.foldl (fun done member => done.insertSorted member.1 member.2) done.members := by
    intro members
    induction members with
    | nil => exact fun _ _ => rfl
    | cons member members ih =>
      intro done hunknown
      rw [List.foldl_cons, List.foldl_cons,
        ih _ fun other hmem => hunknown other (List.mem_cons_of_mem _ hmem), insert,
        dif_neg (hunknown member List.mem_cons_self)]
  refine Extras.ext ?_
  rw [hmembers extras.members .empty extras.unknown, Json.Members.foldl_insertSorted]
  · rfl
  · exact extras.sorted

section Reading

variable {ε : Type} {depth : Nat}

theorem field?_eq_none {name : String} (h : name ∉ names) : (schema ε).field? name = none := by
  simp only [names, List.mem_cons, List.not_mem_nil, or_false, not_or] at h
  obtain ⟨h₁, h₂, h₃, h₄, h₅⟩ := h
  simp [Schema.field?, schema, Json.Field.of, Json.Field.isNamed, Ne.symm h₁, Ne.symm h₂,
    Ne.symm h₃, Ne.symm h₄, Ne.symm h₅]

/-- Further members are all kept. -/
theorem collects_extras (members : Json.Members) (hunknown : ∀ member ∈ members, member.1 ∉ names)
    (hdistinct : Json.MembersDistinct members) (hdepth : Json.membersDepth members ≤ depth) :
    (schema ε).Collects depth (Tree.ofMembers members) [] fun parts =>
      { parts with
        extras :=
          members.foldl (fun done member => done.insert member.1 member.2) parts.extras } := by
  induction members with
  | nil => exact Schema.Collects.nil []
  | cons member members ih =>
    obtain ⟨name, value⟩ := member
    have hvalue := Tree.value?_ofJson value hdistinct.1 (Nat.le_trans (Nat.le_max_left _ _) hdepth)
    have hother : (schema ε).other depth name (Tree.ofJson value) =
        .ok fun parts => { parts with extras := parts.extras.insert name value } := by
      show (Reader.value depth (Tree.ofJson value)).map _ = _
      rw [Reader.value, hvalue]
      rfl
    have hfirst := Schema.Collects.other (field?_eq_none (hunknown _ List.mem_cons_self)) hother
    exact hfirst.append (ih (fun other hmem => hunknown other (List.mem_cons_of_mem _ hmem))
      hdistinct.2 (Nat.le_trans (Nat.le_max_right _ _) hdepth)) fun _ h => nomatch h

/-- **Reading undoes writing** for public keys in JSON. -/
theorem ofJson_toJson (jwk : Jwk) (h : jwk.toJson.Distinct) :
    (ofJson jwk.toJson : Except (Json.Fault ε) Jwk) = .ok jwk := by
  have hdistinct : Json.MembersDistinct jwk.extras.members :=
    (Json.membersDistinct_append.1 h.2).2
  have hdepth : Json.membersDepth jwk.extras.members ≤ Json.membersDepth jwk.toMembers := by
    rw [toMembers, Json.membersDepth_append]
    exact Nat.le_max_right _ _
  have htexts : (schema ε).Collects (Json.membersDepth jwk.toMembers)
      (Tree.ofMembers [("kty", .string jwk.kty)] ++ Tree.ofMembers [("crv", .string jwk.crv)] ++
        Tree.ofMembers [("x", .string jwk.x)]) _ _ :=
    ((Schema.Collects.member "kty" rfl (Reader.text_string jwk.kty)).append
      (.member "crv" rfl (Reader.text_string jwk.crv)) (by decide)).append
      (.member "x" rfl (Reader.text_string jwk.x)) (by decide)
  have hoptions : (schema ε).Collects (Json.membersDepth jwk.toMembers)
      (Tree.ofMembers (jwk.y.map fun y => ("y", Json.string y)).toList ++
        Tree.ofMembers (jwk.kid.map fun kid => ("kid", Json.string kid)).toList) _ _ :=
    (Schema.Collects.optionMember "y" rfl fun _ _ => rfl).append
      (.optionMember "kid" rfl fun _ _ => rfl) (by decide)
  have hmembers := (htexts.append hoptions (by decide)).append
    (collects_extras jwk.extras.members jwk.extras.unknown hdistinct hdepth) (by decide)
  rw [← Tree.ofMembers_append, ← Tree.ofMembers_append, ← Tree.ofMembers_append,
    ← Tree.ofMembers_append, ← Tree.ofMembers_append] at hmembers
  refine hmembers.read ?_
  have hextras := jwk.extras.foldl_insert
  obtain ⟨kty, crv, x, y, kid, extras⟩ := jwk
  have hfinish : (schema ε).finish ⟨some kty, some crv, some x, y, kid,
      extras.members.foldl (fun done member => done.insert member.1 member.2) Extras.empty⟩ =
      .ok ⟨kty, crv, x, y, kid, extras⟩ := by
    rw [hextras]
    rfl
  cases y <;> cases kid <;> exact hfinish

end Reading

end Jwk

end SealedEnvelope
