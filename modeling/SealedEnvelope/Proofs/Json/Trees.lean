import SealedEnvelope.Json.Tree
import SealedEnvelope.Proofs.Json.Spelling

/-!
# The grammar of texts

A tree from which nothing is missing has the tokens that the grammar gives it (`Tree.tokens`), and
it is the tree of a text if these tokens spell the text (`Tree.Spells`).

Cutting and arranging a text gives a tree from which nothing is missing, with nothing behind it,
exactly if that tree spells the text (`Tree.spells_iff`).  So a text has at most one tree, and
whoever knows the tree of a text knows what a reader is handed.

## Why arranging can be undone

The builder goes through the tokens with a stack of open containers.  Reading a value from them
takes the tokens of one value off the front and goes on behind it, and going on inside a container
takes the tokens up to its bracket (`Tree.readValue_sound`).  Where the builder gives up, the
containers that are still open are cut off, and something is missing from the tree.
-/

namespace SealedEnvelope.Json.Tree

/-! ## Nothing is missing -/

theorem intactItems_iff {items : List Tree} :
    intactItems items = true ↔ ∀ item ∈ items, item.intact = true := by
  induction items with
  | nil => exact ⟨fun _ => nofun, fun _ => by rw [intactItems]⟩
  | cons item items ih => rw [intactItems, Bool.and_eq_true, ih, List.forall_mem_cons]

theorem intactMembers_iff {members : List (Option String × Tree)} :
    intactMembers members = true ↔ ∀ member ∈ members, member.2.intact = true := by
  induction members with
  | nil => exact ⟨fun _ => nofun, fun _ => by rw [intactMembers]⟩
  | cons member members ih => rw [intactMembers, Bool.and_eq_true, ih, List.forall_mem_cons]

theorem intact_array_iff {items : List Tree} :
    (array items true).intact = true ↔ ∀ item ∈ items, item.intact = true := by
  rw [intact, Bool.and_true, intactItems_iff]

theorem intact_object_iff {members : List (Option String × Tree)} :
    (object members true).intact = true ↔ ∀ member ∈ members, member.2.intact = true := by
  rw [intact, Bool.and_true, intactMembers_iff]

/-! ## The tokens of a tree -/

mutual

/-- The tokens of a tree.  What is cut off is not told apart. -/
def tokens : Tree → List Token
  | .broken => []
  | .null => [.null]
  | .bool value => [.bool value]
  | .number value => [.number value]
  | .string text => [.string text]
  | .array [] _ => [.leftBracket, .rightBracket]
  | .array (item :: items) _ => .leftBracket :: (item.tokens ++ itemTail items)
  | .object [] _ => [.leftBrace, .rightBrace]
  | .object ((name, value) :: members) _ =>
    .leftBrace :: .string name :: .colon :: (value.tokens ++ memberTail members)

/-- The tokens behind an item of an array. -/
def itemTail : List Tree → List Token
  | [] => [.rightBracket]
  | item :: items => .comma :: (item.tokens ++ itemTail items)

/-- The tokens behind a member of an object. -/
def memberTail : List (Option String × Tree) → List Token
  | [] => [.rightBrace]
  | (name, value) :: members =>
    .comma :: .string name :: .colon :: (value.tokens ++ memberTail members)

end

/-! What is so of all punctuation is so of all tokens of a tree exactly if it is so of those of its
parts. -/

section Tokens

variable {P : Token → Prop} (hfixed : ∀ token : Token, token.fixed?.isSome → P token)
include hfixed

theorem forall_mem_itemTail_iff {items : List Tree} :
    (∀ token ∈ itemTail items, P token) ↔ ∀ item ∈ items, ∀ token ∈ item.tokens, P token := by
  induction items with
  | nil =>
    rw [itemTail]
    exact ⟨fun _ => nofun, fun _ => List.forall_mem_singleton.2 (hfixed _ rfl)⟩
  | cons item items ih =>
    rw [itemTail, List.forall_mem_cons, List.forall_mem_append, List.forall_mem_cons, ih,
      and_iff_right (hfixed _ rfl)]

theorem forall_mem_tokens_array_iff {items : List Tree} {closed : Bool} :
    (∀ token ∈ (array items closed).tokens, P token) ↔
      ∀ item ∈ items, ∀ token ∈ item.tokens, P token := by
  cases items with
  | nil =>
    rw [tokens, List.forall_mem_cons, List.forall_mem_singleton]
    exact ⟨fun _ => nofun, fun _ => ⟨hfixed _ rfl, hfixed _ rfl⟩⟩
  | cons item items =>
    rw [tokens, List.forall_mem_cons, List.forall_mem_append, List.forall_mem_cons,
      forall_mem_itemTail_iff hfixed, and_iff_right (hfixed _ rfl)]

theorem forall_mem_memberTail_iff {members : List (Option String × Tree)} :
    (∀ token ∈ memberTail members, P token) ↔
      ∀ member ∈ members, P (.string member.1) ∧ ∀ token ∈ member.2.tokens, P token := by
  induction members with
  | nil =>
    rw [memberTail]
    exact ⟨fun _ => nofun, fun _ => List.forall_mem_singleton.2 (hfixed _ rfl)⟩
  | cons member members ih =>
    rw [memberTail, List.forall_mem_cons, List.forall_mem_cons, List.forall_mem_cons,
      List.forall_mem_append, List.forall_mem_cons, ih, and_iff_right (hfixed .comma rfl),
      and_iff_right (hfixed .colon rfl), and_assoc]

theorem forall_mem_tokens_object_iff {members : List (Option String × Tree)} {closed : Bool} :
    (∀ token ∈ (object members closed).tokens, P token) ↔
      ∀ member ∈ members, P (.string member.1) ∧ ∀ token ∈ member.2.tokens, P token := by
  cases members with
  | nil =>
    rw [tokens, List.forall_mem_cons, List.forall_mem_singleton]
    exact ⟨fun _ => nofun, fun _ => ⟨hfixed _ rfl, hfixed _ rfl⟩⟩
  | cons member members =>
    rw [tokens, List.forall_mem_cons, List.forall_mem_cons, List.forall_mem_cons,
      List.forall_mem_append, List.forall_mem_cons, forall_mem_memberTail_iff hfixed,
      and_iff_right (hfixed .leftBrace rfl), and_iff_right (hfixed .colon rfl), and_assoc]

end Tokens

/-- A tree is made of tokens that can be spelled. -/
theorem ne_junk_of_mem_tokens : ∀ (tree : Tree), ∀ token ∈ tree.tokens, token ≠ .junk
  | .broken | .null | .bool _ | .number _ | .string _ => by simp [tokens]
  | .array items _ =>
    (forall_mem_tokens_array_iff fun _ h => by rintro rfl; cases h).2 fun item hmem =>
      have := List.sizeOf_lt_of_mem hmem
      ne_junk_of_mem_tokens item
  | .object members _ =>
    (forall_mem_tokens_object_iff fun _ h => by rintro rfl; cases h).2 fun member hmem =>
      have := List.sizeOf_lt_of_mem hmem
      ⟨nofun, ne_junk_of_mem_tokens member.2⟩
decreasing_by
  · rw [array.sizeOf_spec]
    omega
  · cases member
    simp only [Prod.mk.sizeOf_spec, object.sizeOf_spec] at this ⊢
    omega

/-- The text has this tree. -/
def Spells (tree : Tree) (text : Bytes) : Prop :=
  tree.intact = true ∧ Spelling tree.tokens text

/-- A value does not start with a closing bracket. -/
theorem exists_tokens_eq_cons {tree : Tree} (h : tree.intact = true) :
    ∃ token rest, tree.tokens = token :: rest ∧ token ≠ .rightBracket := by
  match tree, h with
  | .null, _ | .bool _, _ | .number _, _ | .string _, _ | .array [] _, _ | .array (_ :: _) _, _
  | .object [] _, _ | .object (_ :: _) _, _ =>
    rw [tokens]
    exact ⟨_, _, rfl, nofun⟩

/-! ## Arranging what was taken apart -/

theorem readValue_leftBracket (frames : List Frame) {tree : Tree} (h : tree.intact = true)
    (rest : List Token) :
    readValue frames (.leftBracket :: (tree.tokens ++ rest)) =
      readValue (.array [] :: frames) (tree.tokens ++ rest) := by
  obtain ⟨token, rest', heq, hne⟩ := exists_tokens_eq_cons h
  rw [heq, List.cons_append, readValue]
  exact fun _ h => hne (List.cons.inj h).1

mutual

/-- Reading takes the tokens of a tree off the front. -/
theorem readValue_tokens : ∀ (tree : Tree), tree.intact = true → ∀ (frames : List Frame)
    (rest : List Token), readValue frames (tree.tokens ++ rest) = afterValue frames tree rest
  | .null, _, _, _ => by rw [tokens, List.singleton_append, readValue]
  | .bool _, _, _, _ => by rw [tokens, List.singleton_append, readValue]
  | .number _, _, _, _ => by rw [tokens, List.singleton_append, readValue]
  | .string _, _, _, _ => by rw [tokens, List.singleton_append, readValue]
  | .array [] true, _, _, _ => by rw [tokens, List.cons_append, List.singleton_append, readValue]
  | .array (item :: items) true, h, frames, rest => by
    simp only [intact, intactItems, Bool.and_eq_true] at h
    rw [tokens, List.cons_append, List.append_assoc, readValue_leftBracket frames h.1.1,
      readValue_tokens item h.1.1, afterValue_itemTail items h.1.2]
    rfl
  | .object [] true, _, _, _ => by rw [tokens, List.cons_append, List.singleton_append, readValue]
  | .object ((name, value) :: members) true, h, frames, rest => by
    simp only [intact, intactMembers, Bool.and_eq_true] at h
    rw [tokens, List.cons_append, List.cons_append, List.cons_append, List.append_assoc, readValue,
      readValue_tokens value h.1.1, afterValue_memberTail members h.1.2]
    rfl
  | .array _ false, h, _, _ => by simp [intact] at h
  | .object _ false, h, _, _ => by simp [intact] at h

/-- Behind an item of an array: the items that are left and the bracket. -/
theorem afterValue_itemTail : ∀ (items : List Tree), intactItems items = true →
    ∀ (done : List Tree) (last : Tree) (outer : List Frame) (rest : List Token),
    afterValue (.array done :: outer) last (itemTail items ++ rest) =
      afterValue outer (.array (done.reverse ++ last :: items) true) rest
  | [], _, _, _, _, _ => by rw [itemTail, List.singleton_append, afterValue, Frame.close]
  | item :: items, h, done, last, outer, rest => by
    simp only [intactItems, Bool.and_eq_true] at h
    rw [itemTail, List.cons_append, List.append_assoc, afterValue, readValue_tokens item h.1,
      afterValue_itemTail items h.2, List.reverse_cons, List.append_assoc, List.singleton_append]

/-- Behind a member of an object: the members that are left and the brace. -/
theorem afterValue_memberTail : ∀ (members : List (Option String × Tree)),
    intactMembers members = true → ∀ (done : List (Option String × Tree)) (name : Option String)
    (last : Tree) (outer : List Frame) (rest : List Token),
    afterValue (.object done name :: outer) last (memberTail members ++ rest) =
      afterValue outer (.object (done.reverse ++ (name, last) :: members) true) rest
  | [], _, _, _, _, _, _ => by rw [memberTail, List.singleton_append, afterValue, Frame.close]
  | (next, value) :: members, h, done, name, last, outer, rest => by
    simp only [intactMembers, Bool.and_eq_true] at h
    rw [memberTail, List.cons_append, List.cons_append, List.cons_append, List.append_assoc,
      afterValue, readValue_tokens value h.1, afterValue_memberTail members h.2, List.reverse_cons,
      List.append_assoc, List.singleton_append]

end

/-! ## Taking apart what was arranged -/

theorem not_intact_close (frame : Frame) (last : Tree) :
    (frame.close last false).intact = false := by
  cases frame <;> rw [Frame.close, intact, Bool.and_false]

/-- Where containers are cut off, something is missing. -/
theorem of_intact_cutOff {frames : List Frame} {last : Tree}
    (h : (cutOff frames last).intact = true) : frames = [] ∧ last.intact = true := by
  induction frames generalizing last with
  | nil => exact ⟨rfl, h⟩
  | cons frame frames ih =>
    obtain ⟨-, hclose⟩ := @ih (frame.close last false) h
    rw [not_intact_close] at hclose
    cases hclose

-- The tokens behind a value that was read are no part of the ones that the builder is called
-- with next, so the recursion is on a bound of their number.
mutual

/-- **Reading takes the tokens of one value off the front**, and goes on behind it. -/
theorem readValue_sound (bound : Nat) {tokens : List Token} (hbound : tokens.length ≤ bound)
    {frames : List Frame} {tree : Tree} {rest : List Token}
    (h : readValue frames tokens = (tree, rest)) (hintact : tree.intact = true) :
    ∃ value more, value.intact = true ∧ tokens = value.tokens ++ more ∧
      afterValue frames value more = (tree, rest) := by
  have hcut {frames : List Frame} {last : Tree}
      (h : (cutOff frames last, ([] : List Token)) = (tree, rest)) : last.intact = true := by
    obtain ⟨rfl, -⟩ := Prod.mk.inj h
    exact (of_intact_cutOff hintact).2
  unfold readValue at h
  split at h
  · exact ⟨.null, _, rfl, rfl, h⟩
  · exact ⟨.bool _, _, rfl, rfl, h⟩
  · exact ⟨.number _, _, rfl, rfl, h⟩
  · exact ⟨.string _, _, rfl, rfl, h⟩
  · exact ⟨.array [] true, _, rfl, rfl, h⟩
  · next tail _ =>
    obtain ⟨value, more, hvalue, rfl, hvalue'⟩ :=
      readValue_sound tail.length (Nat.le_refl _) h hintact
    obtain ⟨items, behind, hitems, rfl, hitems'⟩ :=
      afterItem_sound more.length (Nat.le_refl _) hvalue' hintact
    refine ⟨.array (value :: items) true, behind, ?_, ?_, hitems'⟩
    · rw [intact, intactItems, hvalue, hitems]
      rfl
    · rw [Tree.tokens, List.cons_append, List.append_assoc]
  · exact ⟨.object [] true, _, rfl, rfl, h⟩
  · next name tail =>
    obtain ⟨value, more, hvalue, rfl, hvalue'⟩ :=
      readValue_sound tail.length (Nat.le_refl _) h hintact
    obtain ⟨members, behind, hmembers, rfl, hmembers'⟩ :=
      afterMember_sound more.length (Nat.le_refl _) hvalue' hintact
    refine ⟨.object ((name, value) :: members) true, behind, ?_, ?_, hmembers'⟩
    · rw [intact, intactMembers, hvalue, hmembers]
      rfl
    · rw [Tree.tokens, List.cons_append, List.cons_append, List.cons_append, List.append_assoc]
  -- Where the builder gives up, a value is missing or an object has no end.
  · cases hcut h
  · cases hcut h
  · cases hcut h
termination_by bound
decreasing_by all_goals simp only [List.length_cons, List.length_append] at *; omega

/-- Behind an item of an array, the tokens of the items that are left are taken off the front. -/
theorem afterItem_sound (bound : Nat) {tokens : List Token} (hbound : tokens.length ≤ bound)
    {done : List Tree} {last : Tree} {outer : List Frame} {tree : Tree} {rest : List Token}
    (h : afterValue (.array done :: outer) last tokens = (tree, rest))
    (hintact : tree.intact = true) :
    ∃ items more, intactItems items = true ∧ tokens = itemTail items ++ more ∧
      afterValue outer (.array (done.reverse ++ last :: items) true) more = (tree, rest) := by
  unfold afterValue at h
  split at h
  · next heq => cases heq
  · next tail heq =>
    cases heq
    obtain ⟨value, more, hvalue, rfl, hvalue'⟩ :=
      readValue_sound tail.length (Nat.le_refl _) h hintact
    obtain ⟨items, behind, hitems, rfl, hitems'⟩ :=
      afterItem_sound more.length (Nat.le_refl _) hvalue' hintact
    refine ⟨value :: items, behind, ?_, ?_, ?_⟩
    · rw [intactItems, hvalue, hitems]
      rfl
    · rw [itemTail, List.cons_append, List.append_assoc]
    · rw [List.reverse_cons, List.append_assoc] at hitems'
      exact hitems'
  · next tail heq =>
    cases heq
    exact ⟨[], tail, rfl, rfl, h⟩
  · next heq => cases heq
  · next heq => cases heq
  · next heq => cases heq
  · obtain ⟨rfl, -⟩ := Prod.mk.inj h
    cases (of_intact_cutOff hintact).1
termination_by bound
decreasing_by all_goals simp only [List.length_cons, List.length_append] at *; omega

/-- Behind a member of an object, the tokens of the members that are left are taken off the
front. -/
theorem afterMember_sound (bound : Nat) {tokens : List Token} (hbound : tokens.length ≤ bound)
    {done : List (Option String × Tree)} {name : Option String} {last : Tree} {outer : List Frame}
    {tree : Tree} {rest : List Token}
    (h : afterValue (.object done name :: outer) last tokens = (tree, rest))
    (hintact : tree.intact = true) :
    ∃ members more, intactMembers members = true ∧ tokens = memberTail members ++ more ∧
      afterValue outer (.object (done.reverse ++ (name, last) :: members) true) more =
        (tree, rest) := by
  unfold afterValue at h
  split at h
  · next heq => cases heq
  · next heq => cases heq
  · next heq => cases heq
  · next next tail heq =>
    cases heq
    obtain ⟨value, more, hvalue, rfl, hvalue'⟩ :=
      readValue_sound tail.length (Nat.le_refl _) h hintact
    obtain ⟨members, behind, hmembers, rfl, hmembers'⟩ :=
      afterMember_sound more.length (Nat.le_refl _) hvalue' hintact
    refine ⟨(next, value) :: members, behind, ?_, ?_, ?_⟩
    · rw [intactMembers, hvalue, hmembers]
      rfl
    · rw [memberTail, List.cons_append, List.cons_append, List.cons_append, List.append_assoc]
    · rw [List.reverse_cons, List.append_assoc] at hmembers'
      exact hmembers'
  · obtain ⟨rfl, -⟩ := Prod.mk.inj h
    cases (of_intact_cutOff hintact).1
  · next tail heq =>
    cases heq
    exact ⟨[], tail, rfl, rfl, h⟩
  · obtain ⟨rfl, -⟩ := Prod.mk.inj h
    cases (of_intact_cutOff hintact).1
termination_by bound
decreasing_by all_goals simp only [List.length_cons, List.length_append] at *; omega

end

/-- **Arranging takes the tokens of the tree off the front.** -/
theorem build_eq_iff {tokens rest : List Token} {tree : Tree} (h : tree.intact = true) :
    build tokens = (tree, rest) ↔ tokens = tree.tokens ++ rest := by
  constructor
  · intro hbuild
    obtain ⟨value, more, -, rfl, hafter⟩ := readValue_sound _ (Nat.le_refl _) hbuild h
    rw [afterValue] at hafter
    cases hafter
    rfl
  · rintro rfl
    rw [build, readValue_tokens tree h, afterValue]

/-! ## Texts and trees -/

/-- What comes behind an item may follow a value. -/
theorem follows_itemTail (items : List Tree) (rest : List Token) :
    ∀ token ∈ (itemTail items ++ rest).head?, token.Follows := by
  cases items <;> rw [itemTail] <;> rintro _ ⟨⟩ <;> trivial

theorem follows_memberTail (members : List (Option String × Tree)) (rest : List Token) :
    ∀ token ∈ (memberTail members ++ rest).head?, token.Follows := by
  rcases members with _ | ⟨⟨name, value⟩, members⟩ <;> rw [memberTail] <;> rintro _ ⟨⟩ <;> trivial

mutual

/-- In front of what may follow a value, the tokens of a tree are kept apart. -/
theorem separated_tokens : ∀ (tree : Tree) {rest : List Token}, Separated rest →
    (∀ token ∈ rest.head?, token.Follows) → Separated (tree.tokens ++ rest)
  | .broken, _, h, _ => by
    rw [tokens]
    exact h
  | .null, _, h, _ => by
    rw [tokens]
    exact separated_cons rfl h
  | .bool _, _, h, _ => by
    rw [tokens]
    exact separated_cons rfl h
  | .number _, _, h, hfollows => by
    rw [tokens]
    exact List.isChain_cons.2 ⟨fun next hnext _ => hfollows next hnext, h⟩
  | .string _, _, h, _ => by
    rw [tokens]
    exact separated_cons rfl h
  | .array [] _, _, h, _ => by
    rw [tokens]
    exact separated_cons rfl (separated_cons rfl h)
  | .array (item :: items) _, rest, h, _ => by
    rw [tokens, List.cons_append, List.append_assoc]
    exact separated_cons rfl
      (separated_tokens item (separated_itemTail items h) (follows_itemTail items rest))
  | .object [] _, _, h, _ => by
    rw [tokens]
    exact separated_cons rfl (separated_cons rfl h)
  | .object ((_, value) :: members) _, rest, h, _ => by
    rw [tokens, List.cons_append, List.cons_append, List.cons_append, List.append_assoc]
    exact separated_cons rfl (separated_cons rfl (separated_cons rfl
      (separated_tokens value (separated_memberTail members h) (follows_memberTail members rest))))

theorem separated_itemTail : ∀ (items : List Tree) {rest : List Token}, Separated rest →
    Separated (itemTail items ++ rest)
  | [], _, h => by
    rw [itemTail]
    exact separated_cons rfl h
  | item :: items, rest, h => by
    rw [itemTail, List.cons_append, List.append_assoc]
    exact separated_cons rfl
      (separated_tokens item (separated_itemTail items h) (follows_itemTail items rest))

theorem separated_memberTail : ∀ (members : List (Option String × Tree)) {rest : List Token},
    Separated rest → Separated (memberTail members ++ rest)
  | [], _, h => by
    rw [memberTail]
    exact separated_cons rfl h
  | (_, value) :: members, rest, h => by
    rw [memberTail, List.cons_append, List.cons_append, List.cons_append, List.append_assoc]
    exact separated_cons rfl (separated_cons rfl (separated_cons rfl
      (separated_tokens value (separated_memberTail members h) (follows_memberTail members rest))))

end

/-- **A text is read as the tree that spells it**, and as nothing else. -/
theorem spells_iff {tree : Tree} {text : Bytes} :
    tree.Spells text ↔ tree.intact = true ∧ build (Token.scan text) = (tree, []) := by
  refine and_congr_right fun hintact => ?_
  rw [build_eq_iff hintact, List.append_nil]
  constructor
  · intro hspelling
    have hseparated := separated_tokens tree separated_nil fun _ hmem => by cases hmem
    rw [List.append_nil] at hseparated
    exact hspelling.scan_eq hseparated
  · intro hscan
    rw [← hscan]
    exact spelling_of_scan fun hjunk => ne_junk_of_mem_tokens tree _ (hscan ▸ hjunk) rfl

/-- A text has one tree. -/
theorem Spells.unique {tree other : Tree} {text : Bytes} (h : tree.Spells text)
    (hother : other.Spells text) : tree = other := by
  have heq := (spells_iff.1 h).2
  rw [(spells_iff.1 hother).2] at heq
  exact (Prod.mk.inj heq).1.symm

end SealedEnvelope.Json.Tree
