import Arbor.Proofs.Walks

/-! # Combinators downwards and upwards

What a combinator leads down to is what the one upwards comes from: child steps are parent links taken
backwards. Below a node, or a list that belongs to a field, every step down also has the key that can be
looked up from below, because what holds a node or list holds it once. A free list is left out as a start:
it has items, but holds none of them. -/

namespace Arbor.Tree

variable {catalogue : Catalogue}

private theorem beq_node_iff {value : Value} {c : NodeId} :
    (value == .node c) = true ↔ value = .node c := by
  cases value with
  | scalar s => exact ⟨fun same => Bool.noConfusion same, fun same => Value.noConfusion same⟩
  | list l => exact ⟨fun same => Bool.noConfusion same, fun same => Value.noConfusion same⟩
  | node x =>
    change (x == c) = true ↔ _
    rw [beq_iff_eq, Value.node.injEq]

section Keys

variable {tree : Tree catalogue} (owned : tree.Owned)
include owned

/-- The field of a node that reads as another is the one whose slot holds it. -/
theorem Owned.fieldOf?_of_slot {n c : NodeId} {i : Nat} {field : Field}
    (declared : (tree.fields n)[i]? = some field) (held : (tree.slots n)[i]? = some (.node c)) :
    tree.fieldOf? n (.node c) = some field.name := by
  have found : (tree.readings n).find? (fun entry => entry.2 == .node c) = some (field, .node c) := by
    obtain ⟨bound, isEntry⟩ :=
      List.getElem?_eq_some_iff.mp (getElem?_readings_iff.mpr ⟨declared, .node c, held, rfl⟩)
    rw [List.find?_eq_some_iff_getElem]
    refine ⟨beq_node_iff.mpr rfl, i, bound, isEntry, fun j before => ?_⟩
    rw [Bool.not_eq_true', Bool.eq_false_iff, ne_eq, beq_node_iff]
    intro readsSame
    have isEntryThere : (tree.readings n)[j]? = some ((tree.readings n)[j].1, .node c) := by
      rw [List.getElem?_eq_getElem (by omega), ← readsSame]
    obtain ⟨-, value, heldThere, read⟩ := getElem?_readings_iff.mp isEntryThere
    obtain rfl : value = .node c :=
      handle?_eq_some.mp ((handle?_read _ value (.node c)).mp (by rw [read]; rfl))
    have same := eq_of_nodup_filterMap (owned.nodup (.node n)) heldThere rfl held rfl
    omega
  simp only [fieldOf?, found, Option.map_some]

/-- The place of a node in a list that belongs to a field is where it is an item. -/
theorem Owned.position?_of_item {l : ListId} (isOwned : tree.isOwned l = true) {i : Nat} {c : NodeId}
    (held : (tree.items l)[i]? = some (some c)) : tree.position? l (some c) = some i := by
  have distinct := owned.nodup (.list l)
  rw [members, if_pos isOwned] at distinct
  obtain ⟨bound, isItem⟩ := List.getElem?_eq_some_iff.mp held
  rw [position?, List.idxOf?, List.findIdx?_eq_some_iff_getElem]
  refine ⟨bound, by simp [isItem], fun j before => ?_⟩
  rw [Bool.not_eq_true, beq_eq_false_iff_ne]
  intro sameItem
  have heldThere : (tree.items l)[j]? = some (some c) := by
    rw [List.getElem?_eq_getElem (by omega), sameItem]
  have same := eq_of_nodup_filterMap distinct heldThere rfl held rfl
  omega

/-- The key under which something sits is the one that is looked up. -/
theorem Owned.keyOf?_of_childAt {handle child : Handle} {key : Key} (settled : tree.Settled handle)
    (step : tree.ChildAt handle key child) : tree.keyOf? child = some key := by
  cases step with
  | @slot n i field value _ declared held isHandle =>
    obtain rfl := handle?_eq_some.mp isHandle
    cases child with
    | node c =>
      rw [keyOf?, owned.parent?_of_slot held, Option.bind_some, indexOf?,
        owned.fieldOf?_of_slot declared held]
      rfl
    | list l => simp [keyOf?, owned.owner_iff.mpr held, declared]
  | @item l i c held =>
    have isOwned := settled l rfl
    rw [keyOf?, owned.mem_item_iff.mp ⟨isOwned, List.mem_of_getElem? held⟩, Option.bind_some, indexOf?,
      owned.position?_of_item isOwned held]
    rfl

/-- What holds something has it below itself. -/
theorem Owned.exists_childAt_of_held {inner outer : Handle} (held : tree.HeldBy inner outer) :
    ∃ key, tree.ChildAt outer key inner := by
  cases inner with
  | node c =>
    cases outer with
    | node n => exact owned.exists_childAt (.node c) (owned.mem_slot_iff.mpr held)
    | list l => exact exists_childAt_of_item (owned.mem_item_iff.mpr held).2
  | list l =>
    obtain ⟨owner, belongs, rfl⟩ := Option.map_eq_some_iff.mp held
    exact owned.exists_childAt (.list l) (List.mem_of_getElem? (owned.owner_iff.mp belongs))

end Keys

section Links

variable {tree : Tree catalogue} (owned : tree.Owned)
include owned

theorem Owned.childAt_iff {handle child : Handle} (settled : tree.Settled handle) :
    (∃ key, tree.ChildAt handle key child) ↔ tree.HeldBy child handle := by
  refine ⟨?_, owned.exists_childAt_of_held⟩
  rintro ⟨key, step⟩
  exact (owned.of_childAt step).2.2 settled

/-- Steps down lead to what is below, and the last of them has the key that is looked up. -/
theorem Owned.below_of_descends {boundary : List String} {handle candidate : Handle} {key : Key}
    (settled : tree.Settled handle) (descends : tree.Descends boundary handle key candidate) :
    tree.Below candidate handle ∧ tree.keyOf? candidate = some key := by
  induction descends with
  | direct step clear =>
    exact ⟨.single ((owned.of_childAt step).2.2 settled), owned.keyOf?_of_childAt settled step⟩
  | deeper step clear rest ih =>
    obtain ⟨-, childSettled, held⟩ := owned.of_childAt step
    obtain ⟨below, isKey⟩ := ih childSettled
    exact ⟨below.tail (held settled), isKey⟩

theorem Owned.exists_descends {inner outer : Handle} (below : tree.Below inner outer) :
    ∃ key, tree.Descends [] outer key inner := by
  have clear (handle : Handle) : tree.Clears [] handle := fun _ _ _ member =>
    absurd member List.not_mem_nil
  -- The links are taken from the innermost on, so each further one goes to the front of the descent.
  induction below with
  | single held =>
    obtain ⟨key, step⟩ := owned.exists_childAt_of_held held
    exact ⟨key, .direct step (clear _)⟩
  | tail below held ih =>
    obtain ⟨key, rest⟩ := ih
    obtain ⟨first, step⟩ := owned.exists_childAt_of_held held
    exact ⟨key, .deeper step (clear _) rest⟩

end Links

def visited (candidates : Candidates) : List Handle := candidates.filterMap (·.1.handle?)

private theorem mem_visited {candidates : Candidates} {handle : Handle} :
    handle ∈ visited candidates ↔ ∃ key, (.ofHandle handle, key) ∈ candidates := by
  simp only [visited, List.mem_filterMap, Prod.exists, handle?_eq_some]
  constructor
  · rintro ⟨_, key, member, rfl⟩
    exact ⟨key, member⟩
  · rintro ⟨key, member⟩
    exact ⟨_, key, member, rfl⟩

private theorem visited_ascend (tree : Tree catalogue) (handle : Handle) :
    visited (tree.ascend handle) = tree.ancestors handle := by
  simp [visited, ascend, List.filterMap_map]

private theorem visited_keyed (values : List (Value × Key)) :
    visited (values.map fun entry => (entry.1, some entry.2)) = shownHandles values := by
  rw [visited, List.filterMap_map]
  rfl

/-- What a walk down collects is, in order, among what it shows. -/
theorem Visits.collects {tree : Tree catalogue} {boundary : List String}
    {visitor : Visitor Candidates Empty}
    (visit : ∀ found value key, visitor found value key =
      if tree.atBoundary boundary value then (found, .skip) else ((value, some key) :: found, .goOn))
    {values shown : List (Value × Key)} {found : Candidates} {outcome : Candidates × Option Empty}
    (visits : tree.Visits visitor values found shown outcome) :
    ∃ picked : List (Value × Key), picked.Sublist shown ∧
      outcome.1 = (picked.map fun entry => (entry.1, some entry.2)).reverse ++ found := by
  have skipped {found next : Candidates} {value : Value} {key : Key}
      (skips : visitor found value key = (next, .skip)) : next = found := by
    rw [visit] at skips
    split at skips <;> cases skips
    rfl
  have entered {found next : Candidates} {value : Value} {key : Key}
      (goesOn : visitor found value key = (next, .goOn)) : next = (value, some key) :: found := by
    rw [visit] at goesOn
    split at goesOn <;> cases goesOn
    rfl
  induction visits with
  | done found => exact ⟨[], .slnil, rfl⟩
  | @stop _ _ _ _ _ result stops => exact result.elim
  | skip skips others ih =>
    obtain ⟨picked, inOrder, collected⟩ := ih
    exact ⟨picked, inOrder.cons _, by rw [collected, skipped skips]⟩
  | @leaf _ _ value key _ _ _ goesOn isScalar others ih =>
    obtain ⟨picked, inOrder, collected⟩ := ih
    refine ⟨(value, key) :: picked, inOrder.cons_cons _, ?_⟩
    rw [collected, entered goesOn]
    simp
  | @enter _ _ _ value key _ _ _ _ _ goesOn isHandle inside others ihInside ih =>
    obtain ⟨inner, innerInOrder, innerCollected⟩ := ihInside
    obtain ⟨picked, inOrder, collected⟩ := ih
    refine ⟨(value, key) :: inner ++ picked, (innerInOrder.cons_cons _).append inOrder, ?_⟩
    dsimp only at innerCollected
    rw [collected, innerCollected, entered goesOn]
    simp
  | @stopInside _ _ _ _ _ _ _ _ result goesOn isHandle inside => exact result.elim

/-- A walk down visits nothing twice. -/
theorem WellFormed.nodup_visited_descend {tree : Tree catalogue} (formed : tree.WellFormed)
    {handle : Handle} (present : tree.hasHandle handle = true) (settled : tree.Settled handle)
    (boundary : List String) : (visited (tree.descend boundary handle)).Nodup := by
  rw [descend]
  obtain ⟨shown, visits⟩ := formed.exists_visits_traverseUpTo present (tree.room_le handle) []
  obtain ⟨picked, inOrder, collected⟩ := visits.collects fun _ _ _ => rfl
  have distinct := (List.nodup_cons.mp (formed.nodup_shown settled visits)).2
  rw [traverseDeep, collected, List.append_nil, List.reverse_reverse, visited_keyed]
  exact distinct.sublist (inOrder.filterMap _)

section Visited

variable {tree : Tree catalogue} (formed : tree.WellFormed)
include formed

theorem WellFormed.nodup_visited_down {handle : Handle} (present : tree.hasHandle handle = true)
    (settled : tree.Settled handle) {combinator : Combinator}
    (isDown : combinator ≠ .parent ∧ combinator ≠ .ancestor) :
    (visited (tree.expand (.item handle) combinator)).Nodup := by
  cases combinator with
  | child =>
    have same : visited (tree.expand (.item handle) .child) = shownHandles (tree.children handle) :=
      visited_keyed _
    rw [same]
    exact formed.owned.nodup_children settled
  | parent => exact absurd rfl isDown.1
  | ancestor => exact absurd rfl isDown.2
  | descendant | outsideBlocks | outsideFunctions | outsideClasses =>
    exact formed.nodup_visited_descend present settled _

theorem WellFormed.nodup_visited_ancestors (handle : Handle) :
    (visited (tree.expand (.item handle) .ancestor)).Nodup := by
  have same : visited (tree.expand (.item handle) .ancestor) = tree.ancestors handle :=
    visited_ascend tree handle
  rw [same]
  exact (List.nodup_cons.mp (formed.acyclic.nodup_ancestorsUpTo tree.size handle)).2

theorem WellFormed.nodup_visited_parent (handle : Handle) :
    (visited (tree.expand (.item handle) .parent)).Nodup :=
  (formed.nodup_visited_ancestors handle).sublist ((List.take_sublist 1 _).filterMap _)

theorem WellFormed.key_of_visited_down {handle candidate : Handle} (settled : tree.Settled handle)
    {combinator : Combinator} (isDown : combinator ≠ .parent ∧ combinator ≠ .ancestor)
    {key : Option Key} (visits : (.ofHandle candidate, key) ∈ tree.expand (.item handle) combinator) :
    key = tree.keyOf? candidate := by
  have leads := formed.mem_expandItem_iff.mp visits
  cases combinator with
  | child =>
    obtain ⟨k, rfl, step⟩ := leads
    exact (formed.owned.keyOf?_of_childAt settled step).symm
  | parent => exact absurd rfl isDown.1
  | ancestor => exact absurd rfl isDown.2
  | descendant | outsideBlocks | outsideFunctions | outsideClasses =>
    obtain ⟨k, rfl, descends⟩ := leads
    exact (formed.owned.below_of_descends settled descends).2.symm

theorem WellFormed.visited_descendant_iff {a b : Handle} (settled : tree.Settled a) :
    b ∈ visited (tree.expand (.item a) .descendant) ↔ tree.Below b a := by
  simp only [mem_visited, expand, formed.mem_expandItem_iff, Candidate]
  constructor
  · rintro ⟨_, k, rfl, descends⟩
    exact (formed.owned.below_of_descends settled descends).1
  · intro below
    obtain ⟨k, descends⟩ := formed.owned.exists_descends below
    exact ⟨_, k, rfl, descends⟩

theorem WellFormed.visited_child_iff {a b : Handle} (settled : tree.Settled a) :
    b ∈ visited (tree.expand (.item a) .child) ↔ tree.HeldBy b a := by
  simp only [mem_visited, expand, formed.mem_expandItem_iff, Candidate,
    ← formed.owned.childAt_iff settled]
  constructor
  · rintro ⟨_, k, rfl, step⟩
    exact ⟨k, step⟩
  · rintro ⟨k, step⟩
    exact ⟨_, k, rfl, step⟩

theorem WellFormed.visited_ancestor_iff {a b : Handle} :
    a ∈ visited (tree.expand (.item b) .ancestor) ↔ tree.Below b a := by
  simp [mem_visited, expand, formed.mem_expandItem_iff, Candidate]

theorem WellFormed.visited_parent_iff {a b : Handle} :
    a ∈ visited (tree.expand (.item b) .parent) ↔ tree.HeldBy b a := by
  simp [mem_visited, expand, formed.mem_expandItem_iff, Candidate]

theorem WellFormed.below_iff {a b : Handle} :
    tree.Below b a ↔ a ≠ b ∧ tree.isAncestorOrSelf a b = true := by
  rw [formed.acyclic.isAncestorOrSelf_iff formed.owned, within_iff]
  constructor
  · intro below
    refine ⟨?_, .inr below⟩
    rintro rfl
    exact formed.acyclic a below
  · rintro ⟨other, same | below⟩
    · exact absurd same other
    · exact below

end Visited

/-- From a node, or a list that belongs to a field, the descendants are those it is an ancestor of, and
the children those it is the parent of. Nothing is visited twice, downwards or upwards, and what is
visited downwards has the key that is looked up from it. -/
theorem combinators_are_inverse {tree : Tree catalogue} (reachable : tree.Reachable) {a : Handle}
    (present : tree.hasHandle a = true) (settled : tree.Settled a) (b : Handle) :
    (b ∈ visited (tree.expand (.item a) .descendant) ↔
      a ∈ visited (tree.expand (.item b) .ancestor)) ∧
    (a ∈ visited (tree.expand (.item b) .ancestor) ↔ a ≠ b ∧ tree.isAncestorOrSelf a b = true) ∧
    (b ∈ visited (tree.expand (.item a) .child) ↔ a ∈ visited (tree.expand (.item b) .parent)) ∧
    (∀ combinator, combinator ≠ .parent ∧ combinator ≠ .ancestor →
      (visited (tree.expand (.item a) combinator)).Nodup ∧
      ∀ key, (.ofHandle b, key) ∈ tree.expand (.item a) combinator → key = tree.keyOf? b) ∧
    (visited (tree.expand (.item b) .ancestor)).Nodup ∧
    (visited (tree.expand (.item b) .parent)).Nodup := by
  have formed := reachable.wellFormed
  refine ⟨?_, ?_, ?_, fun combinator isDown => ⟨?_, fun key visits => ?_⟩,
    formed.nodup_visited_ancestors b, formed.nodup_visited_parent b⟩
  · rw [formed.visited_descendant_iff settled, formed.visited_ancestor_iff]
  · rw [formed.visited_ancestor_iff, formed.below_iff]
  · rw [formed.visited_child_iff settled, formed.visited_parent_iff]
  · exact formed.nodup_visited_down present settled isDown
  · exact formed.key_of_visited_down settled isDown visits

theorem combinators_are_inverse_movedBlock :
    movedBlock.Reachable ∧ movedBlock.hasHandle (.list ⟨0⟩) = true ∧
      movedBlock.Settled (.list ⟨0⟩) ∧
      .list ⟨1⟩ ∈ visited (movedBlock.expand (.item (.list ⟨0⟩)) .descendant) ∧
      .list ⟨0⟩ ∈ visited (movedBlock.expand (.item (.list ⟨1⟩)) .ancestor) ∧
      .list ⟨1⟩ ∉ visited (movedBlock.expand (.item (.list ⟨0⟩)) .child) ∧
      (visited (movedBlock.expand (.item (.list ⟨0⟩)) .outsideBlocks)).Nodup := by
  have reachable : movedBlock.Reachable := ⟨1, _, rfl⟩
  have present : movedBlock.hasHandle (.list ⟨0⟩) = true := by decide +kernel
  have settled : movedBlock.Settled (.list ⟨0⟩) := by
    rintro l ⟨⟩
    decide +kernel
  have around : movedBlock.isAncestorOrSelf (.list ⟨0⟩) (.list ⟨1⟩) = true := by decide +kernel
  have notParent : .list ⟨0⟩ ∉ visited (movedBlock.expand (.item (.list ⟨1⟩)) .parent) := by
    decide +kernel
  obtain ⟨down, up, child, once, -⟩ := combinators_are_inverse reachable present settled (.list ⟨1⟩)
  have above := up.mpr ⟨by decide, around⟩
  exact ⟨reachable, present, settled, down.mpr above, above, mt child.mp notParent,
    (once .outsideBlocks ⟨by decide, by decide⟩).1⟩

end Arbor.Tree
