import Arbor.Proofs.Evaluation

/-! # Searching in two trees at once

A renaming takes nodes and lists of one tree to nodes and lists of another. If from everywhere within
some part of the first tree the candidates in the second are those in the first, renamed, and pass the
same tests, then evaluation goes the same way in both trees: repetitions are dropped at the same places,
the same things are remembered, and what is found in the second tree is what is found in the first,
renamed. Identities only enter in that they tell the same things apart. -/

namespace Arbor

/-- What the nodes and lists of a tree are called in another. -/
structure Renaming where
  node : NodeId → NodeId
  list : ListId → ListId

namespace Renaming

variable (rename : Renaming)

def handle : Handle → Handle
  | .node n => .node (rename.node n)
  | .list l => .list (rename.list l)

/-- The value that stands for another. Scalars stand for themselves. -/
def value : Value → Value
  | .scalar s => .scalar s
  | .node n => .node (rename.node n)
  | .list l => .list (rename.list l)

def candidate (candidate : Value × Option Key) : Value × Option Key :=
  (rename.value candidate.1, candidate.2)

@[simp] theorem handle?_value (value : Value) :
    (rename.value value).handle? = value.handle?.map rename.handle := by
  cases value <;> rfl

@[simp] theorem value_ofHandle (handle : Handle) :
    rename.value (.ofHandle handle) = .ofHandle (rename.handle handle) := by
  cases handle <;> rfl

@[simp] theorem value_ofItem (item : Option NodeId) :
    rename.value (.ofItem item) = .ofItem (item.map rename.node) := by
  cases item <;> rfl

theorem handlesOf_map (values : List Value) : Tree.handlesOf (values.map rename.value) =
    (Tree.handlesOf values).map rename.handle := by
  rw [Tree.handlesOf, Tree.handlesOf, List.filterMap_map, List.map_filterMap]
  simp only [Function.comp_def, handle?_value]

end Renaming

namespace Tree

variable {catalogue : Catalogue}

def Covers (within : Handle → Prop) (values : List Value) : Prop :=
  ∀ handle ∈ handlesOf values, within handle

theorem covers_nil (within : Handle → Prop) : Covers within [] :=
  fun _ member => absurd member List.not_mem_nil

theorem Covers.append {within : Handle → Prop} {first second : List Value}
    (coversFirst : Covers within first) (coversSecond : Covers within second) :
    Covers within (first ++ second) := by
  intro handle member
  rcases mem_handlesOf_append.mp member with inside | inside
  · exact coversFirst handle inside
  · exact coversSecond handle inside

private theorem covers_cons_iff {within : Handle → Prop} {value : Value} {rest : List Value} :
    Covers within (value :: rest) ↔
      (∀ handle, value.handle? = some handle → within handle) ∧ Covers within rest := by
  simp only [Covers, mem_handlesOf_cons, or_imp, forall_and]

theorem Covers.subset {within : Handle → Prop} {values others : List Value}
    (covers : Covers within values) (subset : others ⊆ values) : Covers within others :=
  fun handle member => covers handle (mem_handlesOf.mpr (subset (mem_handlesOf.mp member)))

/-- The candidates of a part in the second context are those in the first, renamed. They pass the same
tests, and in the first tree they do not lead out of what is considered. -/
structure SameCandidates (first second : Tree catalogue) (rename : Renaming) (within : Handle → Prop)
    (part : Part) (context other : Context) : Prop where
  expand : second.expand other part.combinator =
    (first.expand context part.combinator).map rename.candidate
  covered : ∀ value key, (value, key) ∈ first.expand context part.combinator →
    ∀ handle, value.handle? = some handle → within handle
  passes : ∀ value key, (value, key) ∈ first.expand context part.combinator →
    second.passesPart (rename.value value) key part = first.passesPart value key part

/-- Within some part of the first tree, the second tells the same things apart, has the same items in its
lists, and the same candidates for the parts that are considered. -/
structure Simulates (first second : Tree catalogue) (rename : Renaming) (within : Handle → Prop)
    (among : Part → Prop) : Prop where
  injective : ∀ {a b : Handle}, within a → within b → rename.handle a = rename.handle b → a = b
  uid_iff : ∀ {a b : Handle}, within a → within b →
    (second.uid (rename.handle a) = second.uid (rename.handle b) ↔ first.uid a = first.uid b)
  items : ∀ {l : ListId}, within (.list l) →
    second.items (rename.list l) = (first.items l).map (Option.map rename.node)
  item_within : ∀ {l : ListId} {c : NodeId}, within (.list l) → some c ∈ first.items l →
    within (.node c)
  candidates : ∀ {part : Part} {handle : Handle}, among part → within handle →
    first.SameCandidates second rename within part (.item handle) (.item (rename.handle handle))

namespace Simulates

variable {first second : Tree catalogue} {rename : Renaming} {within : Handle → Prop}
  {among : Part → Prop} (simulates : first.Simulates second rename within among)
include simulates

/-- What is kept at a value depends on which identities were seen before. -/
theorem foldl_addFound {values : List Value} (covers : Covers within values) {found other : Found}
    (sameValues : other.values = found.values.map rename.value)
    (sameSeen : ∀ handle, within handle →
      (second.uid (rename.handle handle) ∈ other.seen ↔ first.uid handle ∈ found.seen)) :
    ((values.map rename.value).foldl second.addFound other).values =
      (values.foldl first.addFound found).values.map rename.value := by
  induction values generalizing found other with
  | nil => exact sameValues
  | cons value rest ih =>
    obtain ⟨here, later⟩ := covers_cons_iff.mp covers
    rw [List.map_cons, List.foldl_cons, List.foldl_cons]
    cases isHandle : value.handle? with
    | none =>
      have isScalar : (rename.value value).handle? = none := by
        rw [rename.handle?_value, isHandle, Option.map_none]
      rw [addFound_of_scalar found isHandle, addFound_of_scalar other isScalar]
      exact ih later (by rw [sameValues, List.map_cons]) sameSeen
    | some handle =>
      have isRenamed : (rename.value value).handle? = some (rename.handle handle) := by
        rw [rename.handle?_value, isHandle, Option.map_some]
      have inside := here handle isHandle
      rw [addFound_of_handle found isHandle, addFound_of_handle other isRenamed]
      by_cases seen : first.uid handle ∈ found.seen
      · rw [if_pos seen, if_pos ((sameSeen handle inside).mpr seen)]
        exact ih later sameValues sameSeen
      · rw [if_neg seen, if_neg (mt (sameSeen handle inside).mp seen)]
        apply ih later
        · rw [List.map_cons, sameValues]
        · intro elsewhere elsewhereInside
          rw [List.mem_cons, List.mem_cons, sameSeen elsewhere elsewhereInside,
            simulates.uid_iff elsewhereInside inside]

theorem distinct_map {values : List Value} (covers : Covers within values) :
    second.distinct (values.map rename.value) = (first.distinct values).map rename.value := by
  rw [distinct, distinct, List.map_reverse]
  congr 1
  exact simulates.foldl_addFound covers rfl fun _ _ => iff_of_false List.not_mem_nil List.not_mem_nil

end Simulates

private theorem mem_of_mem_foldl_addFound {tree : Tree catalogue} {values : List Value}
    {found : Found} {value : Value} (member : value ∈ (values.foldl tree.addFound found).values) :
    value ∈ found.values ∨ value ∈ values := by
  induction values generalizing found with
  | nil => exact .inl member
  | cons next rest ih =>
    rcases ih member with before | later
    · rw [addFound] at before
      split at before
      · rcases List.mem_cons.mp before with rfl | before
        · exact .inr (List.mem_cons_self ..)
        · exact .inl before
      · split at before
        · exact .inl before
        · rcases List.mem_cons.mp before with rfl | before
          · exact .inr (List.mem_cons_self ..)
          · exact .inl before
    · exact .inr (List.mem_cons_of_mem _ later)

theorem distinct_subset (tree : Tree catalogue) (values : List Value) :
    tree.distinct values ⊆ values := by
  intro value member
  rcases mem_of_mem_foldl_addFound (List.mem_reverse.mp member) with before | inside
  · exact absurd before List.not_mem_nil
  · exact inside

/-- What is taken to be found in the second tree is what is taken to be found in the first, renamed. -/
def SameMemo (first second : Tree catalogue) (rename : Renaming) (within : Handle → Prop)
    (among : Part → Prop) (memo other : Memo) : Prop :=
  ∀ part, among part → ∀ handle, within handle →
    second.remembered other part (rename.handle handle) =
      (first.remembered memo part handle).map rename.value ∧
    Covers within (first.remembered memo part handle)

/-- Whatever was remembered alike, each part finds the same in the two contexts, and what is remembered
then is alike again. -/
def Follows (first second : Tree catalogue) (rename : Renaming) (within : Handle → Prop)
    (among : Part → Prop) (context next : Context) : Prop :=
  ∀ part, among part → ∀ memo other, first.SameMemo second rename within among memo other →
    (second.expandPart other next part).1 =
      (first.expandPart memo context part).1.map rename.value ∧
    Covers within (first.expandPart memo context part).1 ∧
    first.SameMemo second rename within among (first.expandPart memo context part).2
      (second.expandPart other next part).2

namespace Simulates

variable {first second : Tree catalogue} {rename : Renaming} {within : Handle → Prop}
  {among : Part → Prop} (simulates : first.Simulates second rename within among)
include simulates

theorem matchPart {part : Part} {context other : Context}
    (same : first.SameCandidates second rename within part context other) :
    second.matchPart other part = (first.matchPart context part).map rename.value ∧
      Covers within (first.matchPart context part) := by
  have covers : Covers within (((first.expand context part.combinator).filter fun entry =>
      first.passesPart entry.1 entry.2 part).map (·.1)) := by
    intro handle member
    rw [mem_handlesOf, List.mem_map] at member
    obtain ⟨entry, passing, isHandle⟩ := member
    exact same.covered _ _ (List.mem_of_mem_filter passing) handle (handle?_eq_some.mpr isHandle)
  constructor
  · rw [Tree.matchPart, Tree.matchPart, ← simulates.distinct_map covers, same.expand,
      List.filter_map, List.map_map, List.map_map]
    congr 2
    apply List.filter_congr
    intro entry isCandidate
    exact same.passes entry.1 entry.2 isCandidate
  · exact covers.subset (distinct_subset ..)

theorem sameMemo_nil : first.SameMemo second rename within among [] [] :=
  fun _ isPart _ inside => simulates.matchPart (simulates.candidates isPart inside)

/-- From anywhere within the part that is considered, the second tree follows the first. -/
theorem follows_item {handle : Handle} (inside : within handle) :
    first.Follows second rename within among (.item handle) (.item (rename.handle handle)) := by
  intro part isPart memo other same
  obtain ⟨found, covers⟩ := same part isPart handle inside
  rw [expandPart_fst, expandPart_fst]
  refine ⟨found, covers, fun later isLater elsewhere elsewhereInside => ?_⟩
  rw [remembered_expandPart, remembered_expandPart]
  have sameEntry : (second.uid (rename.handle elsewhere), later.text) =
      (second.uid (rename.handle handle), part.text) ↔
      (first.uid elsewhere, later.text) = (first.uid handle, part.text) := by
    rw [Prod.mk.injEq, Prod.mk.injEq, simulates.uid_iff elsewhereInside inside]
  by_cases entry : (first.uid elsewhere, later.text) = (first.uid handle, part.text)
  · rw [if_pos entry, if_pos (sameEntry.mpr entry)]
    exact ⟨found, covers⟩
  · rw [if_neg entry, if_neg (mt sameEntry.mp entry)]
    exact same later isLater elsewhere elsewhereInside

/-- Nothing is remembered of documents, so for them it is enough to have the same candidates. -/
theorem follows_document {root other : Handle} (same : ∀ part, among part →
    first.SameCandidates second rename within part (.document root) (.document other)) :
    first.Follows second rename within among (.document root) (.document other) := by
  intro part isPart memo otherMemo sameMemo
  obtain ⟨found, covers⟩ := simulates.matchPart (same part isPart)
  exact ⟨found, covers, sameMemo⟩

theorem follows_contexts {values : List Value} (covers : Covers within values) :
    List.Forall₂ (first.Follows second rename within among) (contexts values)
      (contexts (values.map rename.value)) := by
  have renamed : contexts (values.map rename.value) =
      (handlesOf values).map fun handle => .item (rename.handle handle) := by
    rw [contexts, ← handlesOf, rename.handlesOf_map, List.map_map]
    rfl
  rw [renamed, contexts, ← handlesOf, List.forall₂_map_left_iff, List.forall₂_map_right_iff,
    List.forall₂_same]
  exact fun handle member => simulates.follows_item (covers handle member)

omit simulates in
theorem expandAll {part : Part} (isPart : among part) {start others : List Context}
    (follows : List.Forall₂ (first.Follows second rename within among) start others)
    {memo other : Memo} (same : first.SameMemo second rename within among memo other) :
    (second.expandAll part other others).1 =
      (first.expandAll part memo start).1.map rename.value ∧
    Covers within (first.expandAll part memo start).1 ∧
    first.SameMemo second rename within among (first.expandAll part memo start).2
      (second.expandAll part other others).2 := by
  induction follows generalizing memo other with
  | nil => exact ⟨rfl, covers_nil within, same⟩
  | @cons context next start others here _ ih =>
    obtain ⟨found, covers, sameHere⟩ := here part isPart memo other same
    obtain ⟨foundRest, coversRest, sameRest⟩ := ih sameHere
    refine ⟨?_, covers.append coversRest, sameRest⟩
    rw [Tree.expandAll, Tree.expandAll, List.map_append, ← found, ← foundRest]

/-- One part after the other finds the same in both trees. -/
theorem evaluateParts {chain : Chain} (parts : ∀ part ∈ chain, among part)
    {start others : List Context}
    (follows : List.Forall₂ (first.Follows second rename within among) start others)
    {matched : List Value} (covers : Covers within matched) {memo other : Memo}
    (same : first.SameMemo second rename within among memo other) :
    (second.evaluateParts other others (matched.map rename.value) chain).1 =
      (first.evaluateParts memo start matched chain).1.map rename.value ∧
    Covers within (first.evaluateParts memo start matched chain).1 ∧
    first.SameMemo second rename within among (first.evaluateParts memo start matched chain).2
      (second.evaluateParts other others (matched.map rename.value) chain).2 := by
  induction chain generalizing start others matched memo other with
  | nil => exact ⟨rfl, covers, same⟩
  | cons part rest ih =>
    obtain ⟨isPart, restParts⟩ := List.forall_mem_cons.mp parts
    obtain ⟨found, coversFound, sameFound⟩ := expandAll isPart follows same
    have coversDistinct := coversFound.subset (distinct_subset first _)
    rw [evaluateParts_cons, evaluateParts_cons, found, simulates.distinct_map coversFound]
    by_cases nothing : first.distinct (first.expandAll part memo start).1 = []
    · rw [if_pos nothing, if_pos (List.map_eq_nil_iff.mpr nothing)]
      exact ⟨rfl, covers_nil within, sameFound⟩
    · rw [if_neg nothing, if_neg (mt List.map_eq_nil_iff.mp nothing)]
      exact ih restParts (simulates.follows_contexts coversDistinct) coversDistinct sameFound

theorem evaluateChains {context next : Context}
    (follows : first.Follows second rename within among context next) {chains : List Chain}
    (parts : ∀ chain ∈ chains, ∀ part ∈ chain, among part) {memo other : Memo}
    (same : first.SameMemo second rename within among memo other) :
    second.evaluateChains next other chains =
      (first.evaluateChains context memo chains).map rename.value ∧
    Covers within (first.evaluateChains context memo chains) := by
  induction chains generalizing memo other with
  | nil => exact ⟨rfl, covers_nil within⟩
  | cons chain rest ih =>
    obtain ⟨chainParts, restParts⟩ := List.forall_mem_cons.mp parts
    obtain ⟨found, covers, sameFound⟩ := simulates.evaluateParts chainParts
      (.cons follows .nil) (covers_nil within) same
    obtain ⟨foundRest, coversRest⟩ := ih restParts sameFound
    refine ⟨?_, covers.append coversRest⟩
    rw [Tree.evaluateChains, Tree.evaluateChains, List.map_append, ← found, ← foundRest]
    rfl

/-- A selector finds in the second tree what it finds in the first, renamed. -/
theorem evaluate {context next : Context}
    (follows : first.Follows second rename within among context next) {selector : Selector}
    (parts : ∀ chain ∈ selector.chains, ∀ part ∈ chain, among part) :
    second.evaluate next selector = (first.evaluate context selector).map rename.value ∧
      Covers within (first.evaluate context selector) := by
  obtain ⟨found, covers⟩ := simulates.evaluateChains follows parts simulates.sameMemo_nil
  rw [Tree.evaluate, Tree.evaluate, found, simulates.distinct_map covers]
  exact ⟨rfl, covers.subset (distinct_subset ..)⟩

section Flattened

theorem beq_node {value : Value} (here : ∀ handle, value.handle? = some handle → within handle)
    {n : NodeId} (inside : within (.node n)) :
    (Value.node (rename.node n) == rename.value value) = (Value.node n == value) := by
  cases value with
  | scalar s => rfl
  | list l => rfl
  | node m =>
    have same : rename.node n = rename.node m ↔ n = m := by
      constructor
      · intro same
        have renamed : rename.handle (.node n) = rename.handle (.node m) := by
          rw [Renaming.handle, Renaming.handle, same]
        cases simulates.injective inside (here _ rfl) renamed
        rfl
      · rintro rfl
        rfl
    show (rename.node n == rename.node m) = (n == m)
    rw [Bool.eq_iff_iff, beq_iff_eq, beq_iff_eq, same]

theorem contains_node {values : List Value} (covers : Covers within values) {n : NodeId}
    (inside : within (.node n)) :
    (values.map rename.value).contains (.node (rename.node n)) = values.contains (.node n) := by
  induction values with
  | nil => rfl
  | cons value rest ih =>
    obtain ⟨here, later⟩ := covers_cons_iff.mp covers
    rw [List.map_cons, List.contains_cons, List.contains_cons, simulates.beq_node here inside, ih later]

/-- The nodes in a list are considered with the list. -/
theorem member_within {l : ListId} (inside : within (.list l)) {n : NodeId}
    (isMember : n ∈ (first.items l).filterMap fun item => item) : within (.node n) := by
  obtain ⟨item, isItem, rfl⟩ := List.mem_filterMap.mp isMember
  exact simulates.item_within inside isItem

theorem members_map {l : ListId} (inside : within (.list l)) :
    ((second.items (rename.list l)).filterMap fun item => item).map Value.node =
      (((first.items l).filterMap fun item => item).map Value.node).map rename.value := by
  rw [simulates.items inside, List.filterMap_map, List.map_map, List.map_filterMap, List.map_filterMap]
  apply List.filterMap_congr
  rintro (_ | c) _ <;> rfl

theorem flattenInto {before after : List Value} (coversBefore : Covers within before)
    (coversAfter : Covers within after) :
    second.flattenInto (before.map rename.value) (after.map rename.value) =
      (first.flattenInto before after).map rename.value := by
  induction before generalizing after with
  | nil => rfl
  | cons value rest ih =>
    obtain ⟨here, later⟩ := covers_cons_iff.mp coversBefore
    cases value with
    | scalar s => exact ih later (covers_cons_iff.mpr ⟨here, coversAfter⟩)
    | node n => exact ih later (covers_cons_iff.mpr ⟨here, coversAfter⟩)
    | list l =>
      have inside : within (.list l) := here _ rfl
      rw [List.map_cons, Renaming.value, Tree.flattenInto, Tree.flattenInto,
        simulates.members_map inside, List.filter_map, ← List.map_append]
      have sameFresh : ((((first.items l).filterMap fun item => item).map Value.node).filter
          ((fun member => !(rest.map rename.value).contains member &&
            !(after.map rename.value).contains member) ∘ rename.value)) =
          (((first.items l).filterMap fun item => item).map Value.node).filter
            fun member => !rest.contains member && !after.contains member := by
        apply List.filter_congr
        intro member isMember
        obtain ⟨n, isNode, rfl⟩ := List.mem_map.mp isMember
        have nodeInside := simulates.member_within inside isNode
        show (!(rest.map rename.value).contains (.node (rename.node n)) &&
          !(after.map rename.value).contains (.node (rename.node n))) = _
        rw [simulates.contains_node later nodeInside, simulates.contains_node coversAfter nodeInside]
      rw [sameFresh]
      refine ih later (Covers.append ?_ coversAfter)
      intro handle member
      rw [mem_handlesOf] at member
      obtain ⟨n, isNode, isHandle⟩ := List.mem_map.mp (List.mem_of_mem_filter member)
      rw [show handle = .node n by cases handle <;> cases isHandle; rfl]
      exact simulates.member_within inside isNode

theorem flatten {found : List Value} (covers : Covers within found) :
    second.flatten (found.map rename.value) = (first.flatten found).map rename.value := by
  rw [Tree.flatten, Tree.flatten, ← List.map_reverse]
  apply simulates.flattenInto _ (covers_nil within)
  exact covers.subset fun value member => List.mem_reverse.mp member

/-- A search in the second tree finds what it finds in the first, renamed, and fails alike. -/
theorem searchSelector {handle : Handle} (inside : within handle) {selector : Selector}
    (parts : ∀ chain ∈ selector.chains, ∀ part ∈ chain, among part) :
    second.searchSelector (rename.handle handle) selector =
      (first.searchSelector handle selector).map (List.map rename.value) := by
  obtain ⟨found, covers⟩ := simulates.evaluate (simulates.follows_item inside) parts
  have sameTypes : second.checkTypes selector = first.checkTypes selector := rfl
  rw [Tree.searchSelector, Tree.searchSelector, sameTypes, found, simulates.flatten covers]
  cases first.checkTypes selector <;> rfl

end Flattened

end Simulates

end Tree
end Arbor
