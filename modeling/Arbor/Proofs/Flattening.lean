import Arbor.Proofs.Simulation
import Arbor.Proofs.Testing
import Arbor.Proofs.Union

/-! # Lists in an answer

A search answers with nodes and scalars: each list it finds is replaced by its nodes that are not found
anyway. The lists are replaced from last to first, and a node is taken to be found if it is among what is
left to do or what is done. That no node comes in by two lists is due to the tree: a combinator only leads
to lists that belong to a field, and such lists share no node. -/

namespace Arbor.Tree

variable {catalogue : Catalogue}

section Confined

variable {tree : Tree catalogue} {within : Handle → Prop}

/-- All nodes and lists that are remembered have the property. -/
def Confines (tree : Tree catalogue) (within : Handle → Prop) (memo : Memo) : Prop :=
  ∀ part handle, Covers within (tree.remembered memo part handle)

theorem Confines.expandPart {memo : Memo} (confined : tree.Confines within memo) (part : Part)
    (handle : Handle) : tree.Confines within (tree.expandPart memo (.item handle) part).2 := by
  intro other elsewhere
  rw [remembered_expandPart]
  split
  · exact confined part handle
  · exact confined other elsewhere

theorem Confines.expandAll {memo : Memo} (confined : tree.Confines within memo) (part : Part)
    (handles : List Handle) :
    Covers within (tree.expandAll part memo (handles.map .item)).1 ∧
      tree.Confines within (tree.expandAll part memo (handles.map .item)).2 := by
  induction handles generalizing memo with
  | nil => exact ⟨covers_nil within, confined⟩
  | cons handle rest ih =>
    obtain ⟨covers, later⟩ := ih (confined.expandPart part handle)
    rw [expandAll_cons_fst]
    exact ⟨(confined part handle).append covers, later⟩

theorem Confines.evaluateParts {memo : Memo} (confined : tree.Confines within memo)
    (handles : List Handle) {matched : List Value} (covers : Covers within matched) (chain : Chain) :
    Covers within (tree.evaluateParts memo (handles.map .item) matched chain).1 ∧
      tree.Confines within (tree.evaluateParts memo (handles.map .item) matched chain).2 := by
  induction chain generalizing memo handles matched with
  | nil => exact ⟨covers, confined⟩
  | cons part rest ih =>
    obtain ⟨found, later⟩ := confined.expandAll part handles
    rw [evaluateParts_cons]
    split
    · exact ⟨covers_nil within, later⟩
    · exact ih later _ (found.subset (distinct_subset ..))

theorem Confines.evaluateChains {memo : Memo} (confined : tree.Confines within memo) (start : Handle)
    (chains : List Chain) : Covers within (tree.evaluateChains (.item start) memo chains) := by
  induction chains generalizing memo with
  | nil => exact covers_nil within
  | cons chain rest ih =>
    obtain ⟨covers, later⟩ := confined.evaluateParts [start] (covers_nil within) chain
    exact covers.append (ih later)

end Confined

section Found

variable {tree : Tree catalogue}

theorem WellFormed.settled_of_candidate (formed : tree.WellFormed) {combinator : Combinator}
    {handle candidate : Handle} {key : Option Key}
    (leads : tree.Candidate combinator handle key candidate) : tree.Settled candidate := by
  cases combinator with
  | child =>
    obtain ⟨k, -, step⟩ := leads
    exact (formed.owned.of_childAt step).2.1
  | parent => exact formed.owned.settled_of_holds leads.1
  | ancestor => exact formed.owned.settled_of_below leads.1
  | descendant | outsideBlocks | outsideFunctions | outsideClasses =>
    obtain ⟨k, -, descends⟩ := leads
    exact formed.owned.settled_of_descends descends

/-- What a selector finds is in the tree, and a list it finds belongs to a field. What is remembered of
another part makes no difference to this: no part leads anywhere else. -/
theorem WellFormed.covers_evaluateChains (formed : tree.WellFormed) (start : Handle)
    (chains : List Chain) :
    Covers (fun found => tree.hasHandle found = true ∧ tree.Settled found)
      (tree.evaluateChains (.item start) [] chains) := by
  apply Confines.evaluateChains
  intro part handle
  refine Covers.subset (fun found passing => ?_) (distinct_subset ..)
  obtain ⟨key, leads, -⟩ := formed.mem_passing_iff.mp passing
  exact ⟨formed.hasHandle_of_candidate leads, formed.settled_of_candidate leads⟩

/-- Nodes and lists that are found once each, lists only if they belong to a field. -/
structure Apart (tree : Tree catalogue) (found : List Value) : Prop where
  nodup : (handlesOf found).Nodup
  settled : Covers tree.Settled found

theorem WellFormed.apart_evaluate (formed : tree.WellFormed) (identified : tree.Identified)
    (start : Handle) (selector : Selector) : tree.Apart (tree.evaluate (.item start) selector) := by
  have covers := formed.covers_evaluateChains start selector.chains
  constructor
  · exact (distinct_spec identified fun handle member => (covers handle member).1).1
  · exact fun handle member => (covers.subset (distinct_subset ..) handle member).2

end Found

def nodesOf (values : List Value) : List NodeId := values.filterMap Value.node?

/-- What a value stands for in an answer: a list for its nodes that are not found themselves, anything
else for itself. -/
def standsFor (tree : Tree catalogue) (found : List Value) : Value → List Value
  | .list l => ((itemNodes (tree.items l)).filter fun n => n ∉ nodesOf found).map .node
  | value => [value]

section Flatten

variable {tree : Tree catalogue} {found : List Value}

private theorem mem_nodesOf {n : NodeId} : n ∈ nodesOf found ↔ .node n ∈ found := by
  rw [nodesOf, List.mem_filterMap]
  constructor
  · rintro ⟨value, member, isNode⟩
    cases value <;> cases isNode
    exact member
  · exact fun member => ⟨_, member, rfl⟩

private theorem mem_standsFor {value : Value} {n : NodeId} : .node n ∈ tree.standsFor found value ↔
    value = .node n ∨ ∃ l, value = .list l ∧ some n ∈ tree.items l ∧ .node n ∉ found := by
  cases value with
  | scalar s => simp [standsFor]
  | node m => simp [standsFor, eq_comm]
  | list l => simp [standsFor, mem_nodesOf, mem_itemNodes]

/-- What two of the values stand for has no node in common. -/
theorem Apart.pairwise (owned : tree.Owned) (apart : tree.Apart found) :
    found.Pairwise fun first second => ∀ n, .node n ∈ tree.standsFor found first →
      .node n ∉ tree.standsFor found second := by
  have isOwned (l : ListId) (member : .list l ∈ found) : tree.isOwned l = true :=
    apart.settled (.list l) (mem_handlesOf.mpr member) l rfl
  have different := List.pairwise_filterMap.mp apart.nodup
  apply different.imp_of_mem
  intro first second isFirst isSecond different n inFirst inSecond
  rcases mem_standsFor.mp inFirst with rfl | ⟨l, rfl, isItem, unfound⟩
  · rcases mem_standsFor.mp inSecond with rfl | ⟨k, rfl, -, unfound⟩
    · exact different _ rfl _ rfl rfl
    · exact unfound isFirst
  · rcases mem_standsFor.mp inSecond with rfl | ⟨k, rfl, isItemToo, -⟩
    · exact unfound isSecond
    · -- Only one list can hold the node.
      have held := owned.mem_item_iff.mp ⟨isOwned l isFirst, isItem⟩
      have heldToo := owned.mem_item_iff.mp ⟨isOwned k isSecond, isItemToo⟩
      exact different _ rfl _ rfl (Option.some.inj (held.symm.trans heldToo))

/-- A list among what is found has no node twice, so nothing stands for a node twice. -/
theorem Apart.nodup_nodesOf (owned : tree.Owned) (apart : tree.Apart found) :
    (nodesOf (found.flatMap (tree.standsFor found))).Nodup := by
  rw [nodesOf, List.filterMap_flatMap]
  apply List.pairwise_flatMap.mpr
  constructor
  · intro value member
    cases value with
    | scalar s => exact .nil
    | node n => exact List.nodup_singleton n
    | list l =>
      have isOwned := apart.settled (.list l) (mem_handlesOf.mpr member) l rfl
      have distinct := owned.nodup (.list l)
      rw [members, if_pos isOwned] at distinct
      have remaining : (tree.standsFor found (.list l)).filterMap Value.node? =
          (itemNodes (tree.items l)).filter fun n => n ∉ nodesOf found := by
        simp [standsFor, List.filterMap_map, Function.comp_def, Value.node?]
      rw [remaining]
      exact distinct.filter _
  · apply (apart.pairwise owned).imp
    rintro first second separate n inFirst _ inSecond rfl
    exact separate n (mem_nodesOf.mp inFirst) (mem_nodesOf.mp inSecond)

/-- While a list is replaced, one of its nodes is found exactly if it is among what is left to do or what
is done: nothing that is done brought the node in for another list. -/
theorem Apart.mem_found_iff (owned : tree.Owned) (apart : tree.Apart found) {before after : List Value}
    {l : ListId} (split : found = before.reverse ++ .list l :: after) {n : NodeId}
    (isItem : some n ∈ tree.items l) :
    .node n ∈ found ↔ .node n ∈ before ∨ .node n ∈ after.flatMap (tree.standsFor found) := by
  constructor
  · intro isFound
    rw [split] at isFound
    rcases List.mem_append.mp isFound with inFront | inBack
    · exact .inl (List.mem_reverse.mp inFront)
    · have isLater : .node n ∈ after := by simpa using inBack
      exact .inr (List.mem_flatMap.mpr ⟨_, isLater, mem_standsFor.mpr (.inl rfl)⟩)
  · rintro (isBefore | isDone)
    · rw [split]
      exact List.mem_append_left _ (List.mem_reverse.mpr isBefore)
    · by_contra unfound
      have separate := apart.pairwise owned
      rw [split, List.pairwise_append, List.pairwise_cons, ← split] at separate
      obtain ⟨value, isLater, inValue⟩ := List.mem_flatMap.mp isDone
      have inList : .node n ∈ tree.standsFor found (.list l) :=
        mem_standsFor.mpr (.inr ⟨l, rfl, isItem, unfound⟩)
      exact separate.2.1.1 value isLater n inList inValue

/-- Replacing the lists from last to first puts what each value stands for into its place. -/
theorem Apart.flattenInto_eq (owned : tree.Owned) (apart : tree.Apart found) {before after : List Value}
    (split : found = before.reverse ++ after) :
    tree.flattenInto before (after.flatMap (tree.standsFor found)) =
      found.flatMap (tree.standsFor found) := by
  induction before generalizing after with
  | nil =>
    rw [flattenInto, split]
    rfl
  | cons value before ih =>
    have next : found = before.reverse ++ value :: after := by simpa using split
    have done := ih next
    cases value with
    | scalar s => exact done
    | node n => exact done
    | list l =>
      rw [flattenInto, ← done, List.flatMap_cons]
      congr 2
      rw [standsFor, List.filter_map]
      congr 1
      apply List.filter_congr
      intro n isItem
      have isFound := apart.mem_found_iff owned next (mem_itemNodes.mp isItem)
      simp only [Function.comp_apply, mem_nodesOf, isFound, ← contains_node_iff, not_or,
        Bool.not_eq_true, Bool.decide_and, Bool.decide_eq_false]

theorem Apart.flatten_eq (owned : tree.Owned) (apart : tree.Apart found) :
    tree.flatten found = found.flatMap (tree.standsFor found) := by
  have split : found = found.reverse.reverse ++ [] := by simp
  exact apart.flattenInto_eq owned split

end Flatten

private theorem searchSelector_eq_ok {tree : Tree catalogue} {start : Handle} {selector : Selector}
    {answer : List Value} (succeeds : tree.searchSelector start selector = .ok answer) :
    answer = tree.flatten (tree.evaluate (.item start) selector) := by
  rw [searchSelector] at succeeds
  split at succeeds
  · contradiction
  · exact (Except.ok.inj succeeds).symm

/-- A search that succeeds answers with no list and no node twice: with what the selector finds, in that
order, each list replaced by its nodes, in theirs, that are not found themselves. -/
theorem search_is_flat {tree : Tree catalogue} (reachable : tree.Reachable) (start : Handle)
    {selector : Selector} {answer : List Value}
    (succeeds : tree.searchSelector start selector = .ok answer) :
    (∀ l, .list l ∉ answer) ∧ (nodesOf answer).Nodup ∧
      answer = (tree.evaluate (.item start) selector).flatMap
        (tree.standsFor (tree.evaluate (.item start) selector)) := by
  have owned := reachable.wellFormed.owned
  have apart := reachable.wellFormed.apart_evaluate reachable.identified start selector
  have isFlat := (searchSelector_eq_ok succeeds).trans (apart.flatten_eq owned)
  refine ⟨fun l isAnswer => ?_, ?_, isFlat⟩
  · rw [isFlat] at isAnswer
    obtain ⟨value, -, member⟩ := List.mem_flatMap.mp isAnswer
    cases value <;> simp [standsFor] at member
  · rw [isFlat]
    exact apart.nodup_nodesOf owned

/-- The second item of the list of a block, then the list. -/
def itemAndList : Selector :=
  let list : Part := ⟨.child, some "body", none, [], [], []⟩
  let second : Part := ⟨.child, some "1", none, [], [], []⟩
  ⟨[[list, second], [list]]⟩

/-- The second item is found itself, so the list after it only stands for the first. -/
theorem search_is_flat_movedBlock :
    movedBlock.Reachable ∧ ∃ answer, movedBlock.searchSelector (.node ⟨0⟩) itemAndList = .ok answer ∧
      handlesOf (movedBlock.evaluate (.item (.node ⟨0⟩)) itemAndList) = [.node ⟨2⟩, .list ⟨0⟩] ∧
      nodesOf answer = [⟨2⟩, ⟨1⟩] ∧ (nodesOf answer).Nodup ∧ ∀ l, .list l ∉ answer := by
  have reachable : movedBlock.Reachable := ⟨1, _, rfl⟩
  have succeeds : movedBlock.searchSelector (.node ⟨0⟩) itemAndList =
      .ok (movedBlock.flatten (movedBlock.evaluate (.item (.node ⟨0⟩)) itemAndList)) := rfl
  obtain ⟨noList, distinct, isFlat⟩ := search_is_flat reachable (.node ⟨0⟩) succeeds
  refine ⟨reachable, _, succeeds, by decide +kernel, ?_, distinct, noList⟩
  rw [isFlat]
  decide +kernel

end Arbor.Tree
