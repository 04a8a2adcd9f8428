import Mathlib.Data.List.Induction
import SealedEnvelope.Proofs.Changing
import SealedEnvelope.SecretStore

/-!
# What a store holds after a history

A store is changed by adding identities and by removing what is filed under a name.  An identity
without a secret is refused before anything is changed, so a store is none the worse for it
(`SecretStore.atomic_make`).

Each change concerns one name, or none at all if it is refused, and leaves all other names as they
were (`SecretStore.get?_leaves`).  So what is filed under a name is what the last change that
concerns it says (`SecretStore.get?_run_eq_some_iff`).

A store keeps names and identities apart, and nothing in its type says that an identity is filed
under its own name.  That is the invariant of all histories: every identity has its secret and is
filed under its own name, and no name is taken twice (`SecretStore.filed_run`).
-/

namespace SealedEnvelope.SecretStore

variable {store : SecretStore} {identity : Identity} {kid other : String} {change : Change}
  {changes : List Change}

theorem run_concat (store : SecretStore) (changes : List Change) (change : Change) :
    store.run (changes ++ [change]) = (make change).leaves (store.run changes) := by
  rw [run, List.foldl_append]
  rfl

/-! ## Looking up names -/

theorem lookup_cons_eq_ite (name other : String) (identity : Identity)
    (entries : List (String × Identity)) :
    ((name, identity) :: entries).lookup other =
      if other = name then some identity else entries.lookup other := by
  rw [List.lookup_cons]
  split
  · next h => rw [if_pos (eq_of_beq h)]
  · next h => rw [if_neg (ne_of_beq_false h)]

theorem get?_erase (store : SecretStore) (kid other : String) :
    (store.erase kid).get? other = if other = kid then none else store.get? other := by
  obtain ⟨entries⟩ := store
  show (entries.filter _).lookup other = if other = kid then none else entries.lookup other
  induction entries with
  | nil => rw [List.filter_nil, List.lookup_nil, ite_self]
  | cons entry entries ih =>
    obtain ⟨name, identity⟩ := entry
    by_cases hname : name = kid
    · rw [List.filter_cons_of_neg (by simpa using hname), ih, lookup_cons_eq_ite, hname]
      split <;> rfl
    · rw [List.filter_cons_of_pos (by simpa using hname), lookup_cons_eq_ite, lookup_cons_eq_ite,
        ih]
      by_cases hother : other = name
      · rw [if_pos hother, if_neg (hother ▸ hname), if_pos hother]
      · rw [if_neg hother, if_neg hother]

theorem get?_insert (store : SecretStore) (kid : String) (identity : Identity) (other : String) :
    (store.insert kid identity).get? other =
      if other = kid then some identity else store.get? other := by
  refine (lookup_cons_eq_ite kid other identity _).trans ?_
  by_cases hother : other = kid
  · rw [if_pos hother, if_pos hother]
  · rw [if_neg hother, if_neg hother]
    exact (get?_erase store kid other).trans (if_neg hother)

/-! ## Changes -/

/-- An identity is filed under its own name, unless it has no secret. -/
theorem checks_add (identity : Identity) :
    (add identity).Checks
      (fun _ => if identity.hasSecret then none else some (.missingSecret identity.kid))
      (·.insert identity.kid identity) := by
  intro store
  unfold add
  cases identity.hasSecret <;> rfl

/-- An identity without a secret is refused, and nothing changes. -/
theorem run_add_of_not_hasSecret (h : identity.hasSecret = false) (store : SecretStore) :
    (add identity).run.run store = (.error (.missingSecret identity.kid), store) :=
  (checks_add identity).run_eq_error_iff.2 ⟨by rw [h]; rfl, rfl⟩

theorem leaves_add_of_hasSecret (h : identity.hasSecret = true) (store : SecretStore) :
    (make (.add identity)).leaves store = store.insert identity.kid identity := by
  have hrun : (add identity).run.run store = (.ok (), store.insert identity.kid identity) :=
    (checks_add identity).run_eq_ok_iff.2 ⟨if_pos h, rfl⟩
  exact congrArg Prod.snd hrun

theorem leaves_add_of_not_hasSecret (h : identity.hasSecret = false) (store : SecretStore) :
    (make (.add identity)).leaves store = store :=
  congrArg Prod.snd (run_add_of_not_hasSecret h store)

theorem leaves_remove (kid : String) (store : SecretStore) :
    (make (.remove kid)).leaves store = store.erase kid := rfl

/-- **A change that fails leaves the store as it was.** -/
theorem atomic_make (change : Change) : (make change).Atomic := by
  cases change with
  | add identity => exact (checks_add identity).atomic
  | remove kid => rintro store error after ⟨⟩

/-- A change concerns a name: it files an identity under it or removes what is filed there. -/
def Change.Concerns (kid : String) : Change → Prop
  | .add identity => identity.hasSecret = true ∧ identity.kid = kid
  | .remove removed => removed = kid

/-- What a change leaves under a name that it concerns. -/
def Change.result? : Change → Option Identity
  | .add identity => some identity
  | .remove _ => none

/-- A change says what is filed under the name that it concerns. -/
theorem get?_leaves (h : change.Concerns kid) :
    ((make change).leaves store).get? kid = change.result? := by
  cases change with
  | add identity =>
    obtain ⟨hsecret, rfl⟩ := h
    rw [leaves_add_of_hasSecret hsecret, get?_insert, if_pos rfl]
    rfl
  | remove removed =>
    obtain rfl : removed = kid := h
    rw [leaves_remove, get?_erase, if_pos rfl]
    rfl

/-- All other names stay as they were. -/
theorem get?_leaves_of_not_concerns (h : ¬change.Concerns kid) :
    ((make change).leaves store).get? kid = store.get? kid := by
  cases change with
  | add identity =>
    cases hsecret : identity.hasSecret with
    | false => rw [leaves_add_of_not_hasSecret hsecret]
    | true =>
      have hkid : kid ≠ identity.kid := fun heq => h ⟨hsecret, heq.symm⟩
      rw [leaves_add_of_hasSecret hsecret, get?_insert, if_neg hkid]
  | remove removed =>
    have hkid : kid ≠ removed := fun heq => h heq.symm
    rw [leaves_remove, get?_erase, if_neg hkid]

/-! ## Histories -/

/-- The identity is the last one that was filed under the name, and it was neither replaced nor
removed since. -/
def LastAdded (changes : List Change) (kid : String) (identity : Identity) : Prop :=
  ∃ before after, changes = before ++ .add identity :: after ∧ identity.hasSecret = true ∧
    identity.kid = kid ∧ ∀ change ∈ after, ¬change.Concerns kid

theorem lastAdded_concat_iff :
    LastAdded (changes ++ [change]) kid identity ↔
      (change.Concerns kid ∧ change.result? = some identity) ∨
        ¬change.Concerns kid ∧ LastAdded changes kid identity := by
  constructor
  · rintro ⟨before, after, hsplit, hsecret, hkid, hafter⟩
    rcases List.eq_nil_or_concat after with rfl | ⟨after, last, rfl⟩
    · obtain ⟨-, hlast⟩ := List.append_inj' hsplit rfl
      obtain rfl := List.singleton_inj.1 hlast
      exact .inl ⟨⟨hsecret, hkid⟩, rfl⟩
    · rw [List.concat_eq_append] at hsplit hafter
      rw [← List.cons_append, ← List.append_assoc] at hsplit
      obtain ⟨rfl, hlast⟩ := List.append_inj' hsplit rfl
      obtain rfl := List.singleton_inj.1 hlast
      obtain ⟨hafter, hlast⟩ := List.forall_mem_append.1 hafter
      exact .inr ⟨hlast change (List.mem_singleton_self _),
        before, after, rfl, hsecret, hkid, hafter⟩
  · rintro (⟨hconcerns, hresult⟩ | ⟨hconcerns, before, after, rfl, hsecret, hkid, hafter⟩)
    · cases change with
      | add added =>
        obtain rfl := Option.some.inj hresult
        exact ⟨changes, [], rfl, hconcerns.1, hconcerns.2, nofun⟩
      | remove removed => cases hresult
    · refine ⟨before, after ++ [change], by simp, hsecret, hkid, ?_⟩
      exact List.forall_mem_append.2 ⟨hafter, by simpa using hconcerns⟩

/-- **What is filed under a name is the last identity that was added under it**, unless it was
removed since. -/
theorem get?_run_eq_some_iff :
    (empty.run changes).get? kid = some identity ↔ LastAdded changes kid identity := by
  induction changes using List.reverseRecOn with
  | nil => exact ⟨nofun, fun ⟨before, after, hsplit, _⟩ => by simp at hsplit⟩
  | append_singleton changes change ih =>
    rw [run_concat, lastAdded_concat_iff]
    by_cases hconcerns : change.Concerns kid
    · simp [get?_leaves hconcerns, hconcerns]
    · simp [get?_leaves_of_not_concerns hconcerns, hconcerns, ih]

/-! ## The invariant -/

/-- Every identity has its secret and is filed under its own name, and no name is taken twice. -/
structure Filed (store : SecretStore) : Prop where
  hasSecret : ∀ entry ∈ store.entries, entry.2.hasSecret = true
  kid_eq : ∀ entry ∈ store.entries, entry.2.kid = entry.1
  nodup : (store.entries.map Prod.fst).Nodup

theorem Filed.erase (h : store.Filed) (kid : String) : (store.erase kid).Filed where
  hasSecret entry hmem := h.hasSecret entry (List.mem_filter.1 hmem).1
  kid_eq entry hmem := h.kid_eq entry (List.mem_filter.1 hmem).1
  nodup := h.nodup.sublist (List.filter_sublist.map Prod.fst)

theorem notMem_erase (store : SecretStore) (kid : String) :
    kid ∉ (store.erase kid).entries.map Prod.fst := by
  rintro hmem
  obtain ⟨entry, hentry, rfl⟩ := List.mem_map.1 hmem
  simpa using (List.mem_filter.1 hentry).2

theorem Filed.insert (h : store.Filed) (hsecret : identity.hasSecret = true) :
    (store.insert identity.kid identity).Filed where
  hasSecret := List.forall_mem_cons.2 ⟨hsecret, (h.erase identity.kid).hasSecret⟩
  kid_eq := List.forall_mem_cons.2 ⟨rfl, (h.erase identity.kid).kid_eq⟩
  nodup := List.nodup_cons.2 ⟨notMem_erase store identity.kid, (h.erase identity.kid).nodup⟩

/-- Whatever a change does, identities stay filed under their own names. -/
theorem Filed.leaves (h : store.Filed) (change : Change) : ((make change).leaves store).Filed := by
  cases change with
  | add identity =>
    cases hsecret : identity.hasSecret with
    | false => rwa [leaves_add_of_not_hasSecret hsecret]
    | true =>
      rw [leaves_add_of_hasSecret hsecret]
      exact h.insert hsecret
  | remove kid => exact h.erase kid

/-- **After any history every identity is filed under its own name.** -/
theorem filed_run (changes : List Change) : (empty.run changes).Filed := by
  induction changes using List.reverseRecOn with
  | nil => exact ⟨nofun, nofun, List.nodup_nil⟩
  | append_singleton changes change ih =>
    rw [run_concat]
    exact ih.leaves change

theorem mem_of_get? (h : store.get? kid = some identity) : (kid, identity) ∈ store.entries := by
  obtain ⟨before, after, hsplit, -⟩ := List.lookup_eq_some_iff.1 h
  rw [hsplit]
  exact List.mem_append_right _ List.mem_cons_self

/-- What is filed under a name is found there. -/
theorem Filed.get?_of_mem (h : store.Filed) (hmem : (kid, identity) ∈ store.entries) :
    store.get? kid = some identity := by
  obtain ⟨before, after, hsplit⟩ := List.append_of_mem hmem
  have hnodup := h.nodup
  rw [hsplit, List.map_append, List.nodup_append] at hnodup
  refine List.lookup_eq_some_iff.2 ⟨before, after, hsplit, fun entry hentry => ?_⟩
  exact bne_iff_ne.2
    (hnodup.2.2 entry.1 (List.mem_map_of_mem hentry) kid List.mem_cons_self).symm

/-- What is found under a name has its secret and that name. -/
theorem Filed.of_get? (h : store.Filed) (hget : store.get? kid = some identity) :
    identity.hasSecret = true ∧ identity.kid = kid :=
  ⟨h.hasSecret _ (mem_of_get? hget), h.kid_eq _ (mem_of_get? hget)⟩

end SealedEnvelope.SecretStore
