import SealedEnvelope.Json.Basic

/-!
# Members in order of their names

Members whose names increase strictly, so that they are distinct and a set of
members has one list.  Names are compared character by character.
-/

namespace SealedEnvelope.Json

/-- Members in strictly increasing order of their names. -/
def Members.Sorted (members : Members) : Prop :=
  members.Pairwise fun a b => a.1 < b.1

namespace Members

/-- Adds a member at its place, or replaces the value of the one that has its
name. -/
def insertSorted (name : String) (value : Json) : Members → Members
  | [] => [(name, value)]
  | (other, old) :: rest =>
    if name = other then (name, value) :: rest
    else if name < other then (name, value) :: (other, old) :: rest
    else (other, old) :: insertSorted name value rest

theorem mem_insertSorted {name : String} {value : Json} {members : Members}
    {entry : String × Json} (h : entry ∈ insertSorted name value members) :
    entry = (name, value) ∨ entry ∈ members := by
  induction members with
  | nil => simpa [insertSorted] using h
  | cons head rest ih =>
    unfold insertSorted at h
    split at h
    · rcases List.mem_cons.1 h with h | h
      · exact .inl h
      · exact .inr (List.mem_cons_of_mem _ h)
    · split at h
      · rcases List.mem_cons.1 h with h | h
        · exact .inl h
        · exact .inr h
      · rcases List.mem_cons.1 h with h | h
        · exact .inr (h ▸ List.mem_cons_self)
        · rcases ih h with h | h
          · exact .inl h
          · exact .inr (List.mem_cons_of_mem _ h)

theorem Sorted.insertSorted {members : Members} (h : members.Sorted) (name : String)
    (value : Json) : (members.insertSorted name value).Sorted := by
  induction members with
  | nil => simp [Members.insertSorted, Sorted]
  | cons head rest ih =>
    obtain ⟨first, tail⟩ := List.pairwise_cons.1 h
    unfold Members.insertSorted
    split
    · next heq =>
      subst heq
      exact List.pairwise_cons.2 ⟨first, tail⟩
    · next hne =>
      split
      · next hlt =>
        refine List.pairwise_cons.2 ⟨fun entry hmem => ?_, h⟩
        rcases List.mem_cons.1 hmem with rfl | hmem
        · exact hlt
        · exact String.lt_trans hlt (first entry hmem)
      · next hnlt =>
        refine List.pairwise_cons.2 ⟨fun entry hmem => ?_, ih tail⟩
        rcases mem_insertSorted hmem with rfl | hmem
        · exact Decidable.byContradiction fun hge =>
            hne (String.le_antisymm hge hnlt)
        · exact first entry hmem

end Members
end SealedEnvelope.Json
