import Mathlib.Data.List.Perm.Subperm
import SealedEnvelope.Envelope.Parameters
import SealedEnvelope.Proofs.Reading.Values

/-!
# Headers that are the same

Two headers are the same if they have the same parameters, in whatever order, and the same goes
for all objects inside of them.  So looking up a parameter gives the same value in both
(`Json.Members.Alike`), and whoever takes a text from one takes it from the other.

The names of an object that was read are distinct, and without that it would be false: being the
same is looked for from one side only, and counted.
-/

namespace SealedEnvelope

namespace Json

/-- Values that are the same are of one kind. -/
theorem same_cases {a b : Json} (h : a.same b = true) :
    (a = .null ∧ b = .null) ∨ (∃ x, a = .bool x ∧ b = .bool x) ∨
    (∃ m n, a = .number m ∧ b = .number n) ∨ (∃ text, a = .string text ∧ b = .string text) ∨
    (∃ as bs, a = .array as ∧ b = .array bs) ∨
    ∃ as bs, a = .object as ∧ b = .object bs ∧ as.length = bs.length ∧
      sameMembers as bs = true := by
  unfold same at h
  split at h
  · exact .inl ⟨rfl, rfl⟩
  · next x y =>
    obtain rfl : x = y := of_decide_eq_true h
    exact .inr (.inl ⟨x, rfl, rfl⟩)
  · next m n => exact .inr (.inr (.inl ⟨m, n, rfl, rfl⟩))
  · next s t =>
    obtain rfl : s = t := of_decide_eq_true h
    exact .inr (.inr (.inr (.inl ⟨s, rfl, rfl⟩)))
  · next as bs => exact .inr (.inr (.inr (.inr (.inl ⟨as, bs, rfl, rfl⟩))))
  · next as bs =>
    obtain ⟨hlength, hmembers⟩ := Bool.and_eq_true_iff.1 h
    exact .inr (.inr (.inr (.inr (.inr
      ⟨as, bs, rfl, rfl, of_decide_eq_true hlength, hmembers⟩))))
  · cases h

theorem asString?_eq_of_same {a b : Json} (h : a.same b = true) : a.asString? = b.asString? := by
  rcases same_cases h with ⟨rfl, rfl⟩ | ⟨_, rfl, rfl⟩ | ⟨_, _, rfl, rfl⟩ | ⟨_, rfl, rfl⟩ |
    ⟨_, _, rfl, rfl⟩ | ⟨_, _, rfl, rfl, -, -⟩ <;> rfl

theorem exists_string_iff_of_same {a b : Json} (h : a.same b = true) :
    (∃ text, a = .string text) ↔ ∃ text, b = .string text := by
  rcases same_cases h with ⟨rfl, rfl⟩ | ⟨_, rfl, rfl⟩ | ⟨_, _, rfl, rfl⟩ | ⟨_, rfl, rfl⟩ |
    ⟨_, _, rfl, rfl⟩ | ⟨_, _, rfl, rfl, -, -⟩ <;> simp

theorem eq_null_iff_of_same {a b : Json} (h : a.same b = true) : a = .null ↔ b = .null := by
  rcases same_cases h with ⟨rfl, rfl⟩ | ⟨_, rfl, rfl⟩ | ⟨_, _, rfl, rfl⟩ | ⟨_, rfl, rfl⟩ |
    ⟨_, _, rfl, rfl⟩ | ⟨_, _, rfl, rfl, -, -⟩ <;> simp

namespace Members

theorem sameMembers_iff {as bs : Members} :
    sameMembers as bs = true ↔
      ∀ member ∈ as, ∃ b, bs.find? member.1 = some b ∧ member.2.same b = true := by
  induction as with
  | nil => exact ⟨fun _ => nofun, fun _ => by rw [sameMembers]⟩
  | cons member as ih =>
    obtain ⟨name, a⟩ := member
    rw [sameMembers, Bool.and_eq_true, ih, List.forall_mem_cons, find?]
    cases bs.lookup name <;> simp

theorem find?_eq_none_iff {members : Members} {name : String} :
    members.find? name = none ↔ name ∉ members.map Prod.fst := by
  rw [find?, List.lookup_eq_none_iff, List.mem_map]
  constructor
  · rintro h ⟨member, hmem, rfl⟩
    simpa using h member hmem
  · intro h member hmem
    simpa using fun heq : name = member.1 => h ⟨member, hmem, heq.symm⟩

/-- Each name has the same value, or none, among both members. -/
def Alike (as bs : Members) : Prop :=
  ∀ name, Option.Rel (fun a b => a.same b = true) (as.find? name) (bs.find? name)

/-- **Objects that are the same have the same values.** -/
theorem alike_of_sameMembers {as bs : Members} (has : (as.map Prod.fst).Nodup)
    (hlength : as.length = bs.length) (hsame : sameMembers as bs = true) : as.Alike bs := by
  intro name
  have hfind := sameMembers_iff.1 hsame
  cases ha : as.find? name with
  | some a =>
    obtain ⟨b, hb, hab⟩ := hfind (name, a) ((find?_eq_some_iff has).1 ha)
    rw [hb]
    exact .some hab
  | none =>
    -- All names are found, and there is no room for another one.
    have hsubset : as.map Prod.fst ⊆ bs.map Prod.fst := by
      intro other hmem
      obtain ⟨member, hmember, rfl⟩ := List.mem_map.1 hmem
      obtain ⟨b, hb, -⟩ := hfind member hmember
      by_contra hnot
      rw [find?_eq_none_iff.2 hnot] at hb
      cases hb
    have hperm : (as.map Prod.fst).Perm (bs.map Prod.fst) :=
      (List.subperm_of_subset has hsubset).perm_of_length_le
        (by rw [List.length_map, List.length_map]; exact Nat.le_of_eq hlength.symm)
    have hb : bs.find? name = none := by
      rw [find?_eq_none_iff, ← hperm.mem_iff, ← find?_eq_none_iff, ha]
    rw [hb]
    exact .none

namespace Alike

variable {as bs : Members}

theorem text_eq (h : as.Alike bs) (name : String) :
    (as.find? name).bind asString? = (bs.find? name).bind asString? := by
  have hname := h name
  generalize as.find? name = a, bs.find? name = b at hname
  cases hname with
  | none => rfl
  | some hsame => exact asString?_eq_of_same hsame

theorem string_eq (h : as.Alike bs) {name s t : String} (hs : as.find? name = some (.string s))
    (ht : bs.find? name = some (.string t)) : s = t := by
  have htext := h.text_eq name
  rw [hs, ht] at htext
  exact Option.some.inj htext

theorem isSome_eq (h : as.Alike bs) (name : String) :
    (as.find? name).isSome = (bs.find? name).isSome := by
  have hname := h name
  generalize as.find? name = a, bs.find? name = b at hname
  cases hname <;> rfl

end Alike

end Members

/-! ## Values are the same as themselves -/

mutual

/-- A value is the same as itself, if its objects do not name a member twice and it holds no
doubles: one of those may be none of the numbers. -/
theorem same_self : ∀ (value : Json), value.Integral → value.Distinct → value.same value = true
  | .null, _, _ => by rw [same]
  | .bool value, _, _ => by rw [same, decide_eq_true rfl]
  | .number (.integer value), _, _ => by rw [same, Number.same, decide_eq_true rfl]
  | .string text, _, _ => by rw [same, decide_eq_true rfl]
  | .array items, hintegral, hdistinct => by
    rw [same]
    exact sameItems_self items hintegral hdistinct
  | .object members, hintegral, hdistinct => by
    rw [same, decide_eq_true rfl, Bool.true_and, Members.sameMembers_iff]
    intro member hmem
    exact ⟨member.2, (Members.find?_eq_some_iff hdistinct.1).2 hmem,
      same_self_of_mem members hintegral hdistinct.2 member hmem⟩

theorem sameItems_self : ∀ (items : List Json), ItemsIntegral items → ItemsDistinct items →
    sameItems items items = true
  | [], _, _ => by rw [sameItems]
  | item :: items, hintegral, hdistinct => by
    rw [sameItems, same_self item hintegral.1 hdistinct.1,
      sameItems_self items hintegral.2 hdistinct.2]
    rfl

theorem same_self_of_mem : ∀ (members : List (String × Json)), MembersIntegral members →
    MembersDistinct members → ∀ member ∈ members, member.2.same member.2 = true
  | [], _, _ => nofun
  | (_, value) :: members, hintegral, hdistinct =>
    List.forall_mem_cons.2 ⟨same_self value hintegral.1 hdistinct.1,
      same_self_of_mem members hintegral.2 hdistinct.2⟩

end

end Json

/-- What is the same as an object is an object with the same values. -/
theorem Json.exists_alike_of_same {as : Json.Members} (has : (Json.object as).Distinct) {b : Json}
    (h : (Json.object as).same b = true) : ∃ bs, b = .object bs ∧ as.Alike bs := by
  rcases Json.same_cases h with ⟨⟨⟩, -⟩ | ⟨_, ⟨⟩, -⟩ | ⟨_, _, ⟨⟩, -⟩ | ⟨_, ⟨⟩, -⟩ | ⟨_, _, ⟨⟩, -⟩ |
    ⟨_, bs, ⟨⟩, rfl, hlength, hmembers⟩
  exact ⟨bs, rfl, Json.Members.alike_of_sameMembers has.1 hlength hmembers⟩

namespace Header

variable {a b : Header}

theorem alike_of_same (ha : a.toJson.Distinct) (h : a.same b = true) :
    a.members.Alike b.members := by
  obtain ⟨bs, hbs, halike⟩ := Json.exists_alike_of_same ha h
  obtain rfl : b.members = bs := Json.object.inj hbs
  exact halike

section Alike

variable (h : a.members.Alike b.members)
include h

theorem text?_of_alike (name : String) : a.text? name = b.text? name := h.text_eq name

theorem octets_of_alike (name : String) : a.octets name = b.octets name := by
  rw [octets, octets, text?_of_alike h name]

theorem octetsFor_of_alike (shared : Header) (name : String) :
    shared.octetsFor a name = shared.octetsFor b name := by
  have hsome := h.isSome_eq name
  change (a.get? name).isSome = (b.get? name).isSome at hsome
  rw [octetsFor, octetsFor, octets_of_alike h name]
  generalize a.get? name = x, b.get? name = y at hsome
  cases x <;> cases y <;> first | rfl | cases hsome

/-- The octets are taken from the same place, whichever of the two headers that is. -/
theorem octetsFor_of_alike_of_alike {c d : Header} (h' : c.members.Alike d.members)
    (name : String) : a.octetsFor c name = b.octetsFor d name := by
  rw [octetsFor_of_alike h', octetsFor, octetsFor, octets_of_alike h name]

end Alike

end Header

end SealedEnvelope
