import Mathlib.Data.List.Induction
import Mathlib.Data.List.Nodup
import SealedEnvelope.Proofs.Building.Steps
import SealedEnvelope.Proofs.Opening.Steps

/-!
# Entries for recipients, one after the other

Both ways of encrypting go through the recipients in order, make an entry for each and add it to
the builder.  Making an entry may fail, and adding it fails if its name was there before, so what
goes wrong first is not decided by the kind of fault but by the place in the list.

`Builder.Addable` says when nothing goes wrong, and `Builder.EntryFault` what goes wrong first.
One of the two is the case (`Builder.addable_or_exists_fault`), and each of them determines what
comes out (`Builder.addEach_eq_ok_iff`, `Builder.EntryFault.addEach_eq_error`).
-/

namespace SealedEnvelope.Builder

variable {α : Type} {make : α → Except Error Recipient} {name : α → String} {Wraps : α → Prop}
  {builder extended : Builder} {taken : List String} {candidates before after : List α}
  {candidate : α} {cause : Error}

/-- Makes an entry for each candidate and adds it. -/
def addEach (make : α → Except Error Recipient) : Builder → List α → Except Error Builder
  | builder, [] => .ok builder
  | builder, candidate :: rest => do
    addEach make (← (addRecipient (← make candidate)).onto builder) rest

theorem addEach_cons {made : Recipient} (h : make candidate = .ok made) (builder : Builder) :
    builder.addEach make (candidate :: after) =
      ((addRecipient made).onto builder >>= fun next => next.addEach make after) := by
  rw [addEach, h]
  rfl

theorem addEach_cons_of_error (h : make candidate = .error cause) (builder : Builder) :
    builder.addEach make (candidate :: after) = .error cause := by
  rw [addEach, h]
  rfl

theorem addEach_append (make : α → Except Error Recipient) (builder : Builder)
    (before after : List α) :
    builder.addEach make (before ++ after) =
      (builder.addEach make before >>= fun next => next.addEach make after) := by
  induction before generalizing builder with
  | nil => rfl
  | cons candidate before ih =>
    rw [List.cons_append]
    cases hmade : make candidate with
    | error cause =>
      rw [addEach_cons_of_error hmade, addEach_cons_of_error hmade]
      rfl
    | ok made =>
      rw [addEach_cons hmade, addEach_cons hmade]
      cases (addRecipient made).onto builder with
      | error cause => rfl
      | ok next => exact ih next

/-- The entry that is made for a candidate, if one is. -/
def entryOf (make : α → Except Error Recipient) (candidate : α) : Recipient :=
  (make candidate).toOption.getD ⟨.empty, []⟩

theorem entryOf_eq {made : Recipient} (h : make candidate = .ok made) :
    entryOf make candidate = made := by
  rw [entryOf, h]
  rfl

/-! ## Conditions -/

/-- How entries are made for candidates: each has the name of its candidate, and what can fail is
that the content key is wrapped. -/
structure Making (make : α → Except Error Recipient) (name : α → String) (Wraps : α → Prop)
    (candidates : List α) : Prop where
  exists_iff : ∀ candidate ∈ candidates, (∃ made, make candidate = .ok made) ↔ Wraps candidate
  kid?_eq : ∀ candidate made, make candidate = .ok made → made.kid? = some (name candidate)
  error_eq : ∀ candidate cause, make candidate = .error cause → cause = .encryptionFailed .keyWrap

/-- What is asked of candidates so that an entry is added for each of them, where some names are
taken. -/
structure Addable (taken : List String) (name : α → String) (Wraps : α → Prop)
    (candidates : List α) : Prop where
  wraps : ∀ candidate ∈ candidates, Wraps candidate
  names_nodup : (candidates.map name).Nodup
  names_new : ∀ candidate ∈ candidates, name candidate ∉ taken

/-- What goes wrong first. -/
inductive EntryFault (taken : List String) (name : α → String) (Wraps : α → Prop)
    (candidates : List α) : Error → Prop
  /-- The content key is not wrapped for a candidate. -/
  | keyWrap {before : List α} {candidate : α} {after : List α}
      (hsplit : candidates = before ++ candidate :: after)
      (hbefore : Addable taken name Wraps before) (hfails : ¬Wraps candidate) :
      EntryFault taken name Wraps candidates (.encryptionFailed .keyWrap)
  /-- The name of a candidate was taken, or is that of another one before it. -/
  | repeated {before : List α} {candidate : α} {after : List α}
      (hsplit : candidates = before ++ candidate :: after)
      (hbefore : Addable taken name Wraps before) (hwraps : Wraps candidate)
      (hmem : name candidate ∈ taken ++ before.map name) :
      EntryFault taken name Wraps candidates
        (.configuration (.duplicateRecipient (name candidate)))

theorem Addable.nil : Addable taken name Wraps [] :=
  ⟨nofun, List.nodup_nil, nofun⟩

/-- One more candidate can be added if it is wrapped for and its name is new. -/
theorem addable_concat_iff :
    Addable taken name Wraps (before ++ [candidate]) ↔
      Addable taken name Wraps before ∧ Wraps candidate ∧
        name candidate ∉ taken ++ before.map name := by
  rw [List.mem_append, not_or]
  constructor
  · rintro ⟨hwraps, hnodup, hnew⟩
    rw [List.map_append, List.nodup_append] at hnodup
    rw [List.forall_mem_append] at hwraps hnew
    refine ⟨⟨hwraps.1, hnodup.1, hnew.1⟩, hwraps.2 _ (List.mem_singleton_self _),
      hnew.2 _ (List.mem_singleton_self _), fun hmem => ?_⟩
    exact hnodup.2.2 _ hmem _ (List.mem_singleton_self _) rfl
  · rintro ⟨⟨hwraps, hnodup, hnew⟩, hwrap, hkid, hname⟩
    refine ⟨List.forall_mem_append.2 ⟨hwraps, by simpa using hwrap⟩, ?_,
      List.forall_mem_append.2 ⟨hnew, by simpa using hkid⟩⟩
    rw [List.map_append, List.nodup_append]
    refine ⟨hnodup, List.nodup_singleton _, ?_⟩
    rintro other hmem _ hother rfl
    obtain rfl := List.mem_singleton.1 hother
    exact hname hmem

/-- Behind a fault nothing counts. -/
theorem EntryFault.append (h : EntryFault taken name Wraps before cause) (after : List α) :
    EntryFault taken name Wraps (before ++ after) cause := by
  cases h with
  | keyWrap hsplit hbefore hfails =>
    exact .keyWrap (by rw [hsplit, List.append_assoc]; rfl) hbefore hfails
  | repeated hsplit hbefore hwraps hmem =>
    exact .repeated (by rw [hsplit, List.append_assoc]; rfl) hbefore hwraps hmem

/-- **Nothing goes wrong, or something goes wrong first.** -/
theorem addable_or_exists_fault (taken : List String) (name : α → String) (Wraps : α → Prop)
    (candidates : List α) :
    Addable taken name Wraps candidates ∨
      ∃ cause, EntryFault taken name Wraps candidates cause := by
  induction candidates using List.reverseRecOn with
  | nil => exact .inl .nil
  | append_singleton before candidate ih =>
    rcases ih with hbefore | ⟨cause, hfault⟩
    · by_cases hwraps : Wraps candidate
      · by_cases hmem : name candidate ∈ taken ++ before.map name
        · exact .inr ⟨_, .repeated rfl hbefore hwraps hmem⟩
        · exact .inl (addable_concat_iff.2 ⟨hbefore, hwraps, hmem⟩)
      · exact .inr ⟨_, .keyWrap rfl hbefore hwraps⟩
    · exact .inr ⟨cause, hfault.append [candidate]⟩

/-! ## What comes out -/

theorem addEach_singleton_eq_ok_iff :
    builder.addEach make [candidate] = .ok extended ↔
      ∃ made, make candidate = .ok made ∧ (addRecipient made).onto builder = .ok extended := by
  rw [addEach, bind_eq_ok_iff]
  refine exists_congr fun made => and_congr_right fun _ => ?_
  cases (addRecipient made).onto builder <;> exact Iff.rfl

theorem Making.left (h : Making make name Wraps (before ++ after)) :
    Making make name Wraps before :=
  ⟨fun candidate hmem => h.exists_iff candidate (List.mem_append_left _ hmem), h.kid?_eq,
    h.error_eq⟩

/-- The names of the entries that are made are those of the candidates. -/
theorem Making.kids_eq (h : Making make name Wraps candidates)
    (hwraps : ∀ candidate ∈ candidates, Wraps candidate) :
    (candidates.map (entryOf make)).filterMap Recipient.kid? = candidates.map name := by
  rw [List.filterMap_map, ← List.filterMap_eq_map]
  refine List.filterMap_congr fun candidate hmem => ?_
  obtain ⟨made, hmade⟩ := (h.exists_iff candidate hmem).2 (hwraps candidate hmem)
  show (entryOf make candidate).kid? = some (name candidate)
  rw [entryOf_eq hmade]
  exact h.kid?_eq candidate made hmade

/-- **Entries are added exactly if the content key is wrapped for every candidate and all names are
new**, and they stand behind those that were there, in the order of the candidates. -/
theorem addEach_eq_ok_iff (h : Making make name Wraps candidates) :
    builder.addEach make candidates = .ok extended ↔
      Addable builder.kids name Wraps candidates ∧
        extended = { builder with
          recipients := builder.recipients ++ candidates.map (entryOf make) } := by
  induction candidates using List.reverseRecOn generalizing extended with
  | nil =>
    rw [addEach, List.map_nil, List.append_nil, Except.ok.injEq, eq_comm]
    exact (and_iff_right .nil).symm
  | append_singleton before candidate ih =>
    have hmakes := h.exists_iff candidate (List.mem_append_right _ (List.mem_singleton_self _))
    simp only [addEach_append, bind_eq_ok_iff, ih h.left, addEach_singleton_eq_ok_iff,
      addRecipient_eq_ok_iff, addable_concat_iff, List.map_append, List.map_singleton]
    constructor
    · rintro ⟨_, ⟨hbefore, rfl⟩, made, hmade, hnew, rfl⟩
      have hkid := hnew _ (h.kid?_eq candidate made hmade)
      rw [kids_append, h.left.kids_eq hbefore.wraps] at hkid
      refine ⟨⟨hbefore, hmakes.1 ⟨made, hmade⟩, hkid⟩, ?_⟩
      rw [entryOf_eq hmade, List.append_assoc]
    · rintro ⟨⟨hbefore, hwraps, hkid⟩, rfl⟩
      obtain ⟨made, hmade⟩ := hmakes.2 hwraps
      refine ⟨_, ⟨hbefore, rfl⟩, made, hmade, ?_, ?_⟩
      · rw [kids_append, h.left.kids_eq hbefore.wraps, h.kid?_eq candidate made hmade]
        rintro _ ⟨⟩
        exact hkid
      · rw [entryOf_eq hmade, List.append_assoc]

/-- **What goes wrong first is what comes out.** -/
theorem EntryFault.addEach_eq_error (hfault : EntryFault builder.kids name Wraps candidates cause)
    (h : Making make name Wraps candidates) : builder.addEach make candidates = .error cause := by
  cases hfault with
  | @keyWrap before candidate after hsplit hbefore hfails =>
    subst hsplit
    have hmakes := h.exists_iff candidate (List.mem_append_right _ List.mem_cons_self)
    rw [addEach_append, (addEach_eq_ok_iff h.left).2 ⟨hbefore, rfl⟩]
    show addEach make _ (candidate :: after) = _
    cases hmade : make candidate with
    | ok made => exact absurd (hmakes.1 ⟨made, hmade⟩) hfails
    | error cause =>
      rw [addEach, hmade, ← h.error_eq candidate cause hmade]
      rfl
  | @repeated before candidate after hsplit hbefore hwraps hmem =>
    subst hsplit
    have hmakes := h.exists_iff candidate (List.mem_append_right _ List.mem_cons_self)
    obtain ⟨made, hmade⟩ := hmakes.2 hwraps
    rw [← h.left.kids_eq hbefore.wraps, ← kids_append] at hmem
    rw [addEach_append, (addEach_eq_ok_iff h.left).2 ⟨hbefore, rfl⟩]
    show addEach make _ (candidate :: after) = _
    rw [addEach, hmade]
    show ((addRecipient made).onto _ >>= _) = _
    rw [addRecipient_eq_error (h.kid?_eq candidate made hmade) hmem]
    rfl

end SealedEnvelope.Builder
