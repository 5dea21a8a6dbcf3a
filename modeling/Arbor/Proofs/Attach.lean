import Arbor.Proofs.Building

/-! # Putting something new into place

A node that was just made is held nowhere, and nothing old is below it. So it can be assigned to a field
that holds no node, or put at the end of a list, without anything else giving way: only the content of
what gets it differs, and only the new node is held elsewhere than before. -/

namespace Arbor.Tree

variable {catalogue : Catalogue}

open Arbor.Action

/-- Every node and list of the old tree is still there, and has the content it had unless it is the
target. -/
structure SameBut (old now : Tree catalogue) (target : Handle) : Prop where
  hasHandle : ∀ handle : Handle, old.hasHandle handle = true → now.hasHandle handle = true
  typeOf : ∀ {n : NodeId}, old.hasNode n = true → now.typeOf n = old.typeOf n
  slots : ∀ {n : NodeId}, old.hasNode n = true → .node n ≠ target → now.slots n = old.slots n
  metadata : ∀ {n : NodeId}, old.hasNode n = true → .node n ≠ target →
    now.metadata n = old.metadata n
  items : ∀ {l : ListId}, old.hasList l = true → .list l ≠ target → now.items l = old.items l

/-- Every node and list of the old tree is held where it was. -/
structure SameLinks (old now : Tree catalogue) : Prop where
  parent : ∀ handle : Handle, old.hasHandle handle = true → now.parent? handle = old.parent? handle
  owner : ∀ {l : ListId}, old.hasList l = true → now.owner? l = old.owner? l

theorem Keeps.sameBut {old now : Tree catalogue} (kept : old.Keeps now) (target : Handle) :
    old.SameBut now target where
  hasHandle _ := kept.hasHandle
  typeOf present := by rw [typeOf, typeOf, kept.node?_eq present]
  slots present _ := kept.slots_eq present
  metadata present _ := by rw [metadata, metadata, kept.node?_eq present]
  items present _ := kept.items_eq present

theorem Keeps.sameLinks {old now : Tree catalogue} (kept : old.Keeps now) : old.SameLinks now where
  parent _ := kept.parent?_eq
  owner := kept.owner?_eq

theorem metadata_modifyNode (tree : Tree catalogue) (id x : NodeId) {change : Node → Node}
    (keeps : ∀ node, (change node).metadata = node.metadata) :
    (tree.modifyNode id change).metadata x = tree.metadata x := by
  rw [metadata, metadata, map_node?_modifyNode tree id x change _ keeps]

private theorem metadata_setParent (tree : Tree catalogue) (parent : Option Handle)
    (id x : NodeId) : (tree.setParent parent id).metadata x = tree.metadata x :=
  metadata_modifyNode _ _ _ fun _ => rfl

namespace SameBut

variable {old now after : Tree catalogue} {target : Handle}

theorem refl (tree : Tree catalogue) (target : Handle) : tree.SameBut tree target :=
  (Keeps.refl tree).sameBut target

theorem trans (first : old.SameBut now target) (second : now.SameBut after target) :
    old.SameBut after target where
  hasHandle handle present := second.hasHandle handle (first.hasHandle handle present)
  typeOf {n} present := (second.typeOf (first.hasHandle (.node n) present)).trans (first.typeOf present)
  slots {n} present other :=
    (second.slots (first.hasHandle (.node n) present) other).trans (first.slots present other)
  metadata {n} present other :=
    (second.metadata (first.hasHandle (.node n) present) other).trans (first.metadata present other)
  items {l} present other :=
    (second.items (first.hasHandle (.list l) present) other).trans (first.items present other)

theorem fields (same : old.SameBut now target) {n : NodeId} (present : old.hasNode n = true) :
    now.fields n = old.fields n := by
  rw [Tree.fields, Tree.fields, same.typeOf present]

/-- Where something is held is not part of its content. -/
theorem setParent (same : old.SameBut now target) (c : NodeId) (parent : Option Handle) :
    old.SameBut (now.setParent parent c) target where
  hasHandle handle present := by
    cases handle with
    | node n => exact (hasNode_setParent ..).trans (same.hasHandle _ present)
    | list l => exact same.hasHandle (.list l) present
  typeOf present := (typeOf_setParent ..).trans (same.typeOf present)
  slots present other := (slots_setParent ..).trans (same.slots present other)
  metadata present other := (metadata_setParent ..).trans (same.metadata present other)
  items present other := same.items present other

/-- The target may change in all but its type. -/
theorem modifyNode {n : NodeId} (same : old.SameBut now (.node n)) {change : Node → Node}
    (type : ∀ node, (change node).type = node.type) :
    old.SameBut (now.modifyNode n change) (.node n) where
  hasHandle handle present := by
    cases handle with
    | node n => exact (hasNode_modifyNode ..).trans (same.hasHandle _ present)
    | list l => exact same.hasHandle (.list l) present
  typeOf present := (typeOf_modifyNode _ _ _ type).trans (same.typeOf present)
  slots present other := by
    rw [Tree.slots, node?_modifyNode, if_neg fun isTarget => other (congrArg Handle.node isTarget)]
    exact same.slots present other
  metadata present other := by
    rw [Tree.metadata, node?_modifyNode, if_neg fun isTarget => other (congrArg Handle.node isTarget)]
    exact same.metadata present other
  items present other := same.items present other

theorem setItems {l : ListId} (same : old.SameBut now (.list l)) (items : List (Option NodeId)) :
    old.SameBut (now.setItems l items) (.list l) where
  hasHandle handle present := by
    cases handle with
    | node n => exact same.hasHandle (.node n) present
    | list k => exact (hasList_setItems ..).trans (same.hasHandle _ present)
  typeOf present := same.typeOf present
  slots present other := same.slots present other
  metadata present other := same.metadata present other
  items present other :=
    (items_modifyList_of_ne _ _ _ _ fun isTarget => other (congrArg Handle.list isTarget)).trans
      (same.items present other)

end SameBut

namespace SameLinks

variable {old now : Tree catalogue}

theorem trans {after : Tree catalogue} {target : Handle} (first : old.SameLinks now)
    (same : old.SameBut now target) (second : now.SameLinks after) : old.SameLinks after where
  parent handle present :=
    (second.parent handle (same.hasHandle handle present)).trans (first.parent handle present)
  owner {l} present := (second.owner (same.hasHandle (.list l) present)).trans (first.owner present)

/-- Something new may be held elsewhere than before. -/
theorem setParent (links : old.SameLinks now) {c : NodeId} (new : old.hasNode c = false)
    (parent : Option Handle) : old.SameLinks (now.setParent parent c) where
  parent handle present := by
    cases handle with
    | node n =>
      have other : n ≠ c := by
        rintro rfl
        exact absurd (present.symm.trans new) (by decide)
      rw [parent?_setParent, if_neg other]
      exact links.parent _ present
    | list l => exact links.parent (.list l) present
  owner present := links.owner present

theorem modifyNode (links : old.SameLinks now) (n : NodeId) {change : Node → Node}
    (parent : ∀ node, (change node).parent = node.parent) :
    old.SameLinks (now.modifyNode n change) where
  parent handle present := by
    cases handle with
    | node x => exact (parent?_modifyNode _ _ _ parent).trans (links.parent _ present)
    | list l => exact links.parent (.list l) present
  owner present := links.owner present

theorem setItems (links : old.SameLinks now) (l : ListId) (items : List (Option NodeId)) :
    old.SameLinks (now.setItems l items) where
  parent handle present := (parent?_setItems ..).trans (links.parent handle present)
  owner present := (owner?_setItems ..).trans (links.owner present)

theorem ownerField? (links : old.SameLinks now) {target : Handle} (same : old.SameBut now target)
    (owned : old.Owned) {l : ListId} (present : old.hasList l = true) :
    now.ownerField? l = old.ownerField? l := by
  rw [Tree.ownerField?, Tree.ownerField?, links.owner present]
  cases belongs : old.owner? l with
  | none => rfl
  | some owner =>
    have ownerPresent := hasNode_of_slot (owned.owner_iff.mp belongs)
    exact congrArg (·[owner.2]?) (same.fields ownerPresent)

end SameLinks

/-- If the value is a node or list, nothing holds it. -/
def Unheld (tree : Tree catalogue) (value : Value) : Prop :=
  ∀ handle, value.handle? = some handle → tree.parent? handle = none

/-- Nothing old lies below something new. -/
theorem Keeps.outside {old now : Tree catalogue} (kept : old.Keeps now) (oldOwned : old.Owned)
    {inner outer : Handle} (innerOld : old.hasHandle inner = true)
    (outerNew : old.hasHandle outer = false) : ¬ now.Within inner outer := by
  intro within
  have outerOld : old.hasHandle outer = true := by
    clear outerNew
    induction within with
    | refl => exact innerOld
    | tail below link ih =>
      rw [HeldBy, kept.parent?_eq ih] at link
      exact oldOwned.hasHandle_of_parent? link
  rw [outerNew] at outerOld
  contradiction

section Attach

variable {tree : Tree catalogue}

theorem WellFormed.checkAcyclic_eq_ok (formed : tree.WellFormed) {c : NodeId} {parent : Handle}
    (outside : ¬ tree.Within parent (.node c)) : tree.checkAcyclic c parent = .ok () := by
  rw [checkAcyclic, if_neg]
  rwa [formed.acyclic.isAncestorOrSelf_iff formed.owned]

private theorem detach_of_unheld {c : NodeId} (unheld : tree.parent? (.node c) = none) :
    tree.detach c = tree := by
  rw [detach.eq_def, unheld]

private theorem putScalar_of_scalar {n : NodeId} {place : Nat} {s : Scalar}
    (held : (tree.slots n)[place]? = some (.scalar s)) (value : Value) :
    tree.putScalar n place value = tree.setSlotValue n place value := by
  rw [putScalar, held]
  rfl

private theorem listItem_ofItem (l : ListId) (item : Option NodeId) :
    tree.listItem l (.ofItem item) = .ok item := by
  cases item <;> rfl

theorem WellFormed.checkItem_eq_ok (formed : tree.WellFormed) {l : ListId} {item : Option NodeId}
    (admitted : ∀ field, tree.ownerField? l = some field → tree.admitsItem field item = true)
    (outside : ∀ c, item = some c → ¬ tree.Within (.list l) (.node c)) :
    tree.checkItem l item = .ok () := by
  rw [checkItem.eq_def]
  split
  · rfl
  · next field belongs =>
    rw [if_pos (admitted field belongs)]
    split
    · next c => exact formed.checkAcyclic_eq_ok (outside c rfl)
    · rfl

theorem distinctItems_singleton (item : Option NodeId) : distinctItems [] [item] = [item] := by
  cases item <;> rfl

private theorem splice_end_of_owned {l : ListId} (isOwned : tree.isOwned l = true)
    {item : Option NodeId} (passed : tree.checkItem l item = .ok ()) :
    tree.splice l (tree.length l) 0 [item] =
      .ok ([], tree.replaceOwned l (tree.length l) (tree.length l) [item]) := by
  simp [splice, length, isOwned, distinctItems_singleton, checkItems, passed]

private theorem splice_end_of_free {l : ListId} (isFree : tree.isOwned l = false)
    (item : Option NodeId) :
    tree.splice l (tree.length l) 0 [item] = .ok ([], tree.setItems l (tree.items l ++ [item])) := by
  simp [splice, length, isFree, replaceFree]

theorem Owned.replaceOwned_end (owned : tree.Owned) {l : ListId} (isOwned : tree.isOwned l = true)
    {item : Option NodeId} (unheld : tree.Unheld (.ofItem item)) :
    tree.replaceOwned l (tree.length l) (tree.length l) [item] =
      tree.insertItems l (tree.items l) [item] [] := by
  have uncut : tree.replaceOwned l (tree.length l) (tree.length l) [] = tree := by
    rw [replaceOwned_nil, length]
    simp [itemNodes, setItems_self]
  have inside : tree.length l ≤ (tree.items l).length := Nat.le_refl _
  rw [owned.replaceOwned_eq isOwned (Nat.le_refl _) inside, uncut, length, List.take_length,
    List.drop_length]
  cases item with
  | none => simp [itemNodes]
  | some c =>
    have free : tree.parent? (.node c) = none := unheld _ rfl
    have absent : some c ∉ tree.items l := by
      intro isItem
      rw [owned.mem_item_iff.mp ⟨isOwned, isItem⟩] at free
      contradiction
    simp [itemNodes, detach_of_unheld free, without_of_not_mem absent,
      without_of_not_mem List.not_mem_nil]

variable {old : Tree catalogue} (kept : old.Keeps tree) (oldOwned : old.Owned)
  (formed : tree.WellFormed)
include kept oldOwned formed

/-- A new value that an unset field admits is assigned to it, and nothing else changes. -/
theorem Keeps.assignSlot_new {n : NodeId} (present : old.hasNode n = true) {place : Nat}
    {field : Field} (declared : (tree.fields n)[place]? = some field) (noList : field.kind ≠ .list)
    {s : Scalar} (held : (tree.slots n)[place]? = some (.scalar s)) {value : Value}
    (admitted : tree.admits field value = true) (new : old.NewValue tree value)
    (unheld : tree.Unheld value) :
    ∃ after, assignSlot n place value tree = (.ok (), after) ∧ after.WellFormed ∧
      after.slots n = (tree.slots n).set place value ∧ tree.SameBut after (.node n) ∧
      old.SameLinks after := by
  suffices put : ∃ after, tree.setSlot n place value = .ok after ∧
      after.slots n = (tree.slots n).set place value ∧ tree.SameBut after (.node n) ∧
      old.SameLinks after by
    obtain ⟨after, put, effect⟩ := put
    refine ⟨after, ?_, ?_, effect⟩
    · rw [assignSlot_eq_whole]
      exact whole_of_ok (by rw [put]; rfl)
    · exact formed.evolves (formed.evolves_setSlot (hasNode_of_slot held) new.hasValue put)
  have passed := checkPlace_eq_ok_iff.mpr ⟨field, declared, noList, admitted⟩
  have written : tree.SameBut (tree.setSlotValue n place value) (.node n) :=
    (SameBut.refl tree _).modifyNode fun _ => rfl
  have links : old.SameLinks (tree.setSlotValue n place value) :=
    kept.sameLinks.modifyNode n fun _ => rfl
  have slots : (tree.setSlotValue n place value).slots n = (tree.slots n).set place value := by
    rw [slots_setSlotValue, if_pos rfl]
  cases value with
  | node c =>
    have free : tree.parent? (.node c) = none := unheld _ rfl
    have childNew : old.hasNode c = false := (new _ rfl).2
    have outside : ¬ tree.Within (.node n) (.node c) := kept.outside oldOwned present childNew
    refine ⟨_, ?_, ?_, written.setParent c (some (.node n)), links.setParent childNew _⟩
    · rw [Tree.setSlot, passed]
      simp only [formed.checkAcyclic_eq_ok outside, Tree.putNode, detach_of_unheld free,
        putScalar_of_scalar held]
    · rw [slots_setParent, slots]
  | scalar _ | list _ =>
    refine ⟨_, ?_, slots, written, links⟩
    rw [setSlot.eq_def, passed, ← putScalar_of_scalar held]

/-- A new item that a list admits is put at its end, and nothing else changes. -/
theorem Keeps.pushValue_new {l : ListId} (present : old.hasList l = true) {item : Option NodeId}
    (admitted : ∀ field, tree.ownerField? l = some field → tree.admitsItem field item = true)
    (new : old.NewValue tree (.ofItem item)) (unheld : tree.Unheld (.ofItem item)) :
    ∃ length after, pushValue l (.ofItem item) tree = (.ok length, after) ∧ after.WellFormed ∧
      after.items l = tree.items l ++ [item] ∧ tree.SameBut after (.list l) ∧
      old.SameLinks after := by
  suffices put : ∃ after, tree.splice l (tree.length l) 0 [item] = .ok ([], after) ∧
      after.items l = tree.items l ++ [item] ∧ tree.SameBut after (.list l) ∧ old.SameLinks after by
    obtain ⟨after, spliced, effect⟩ := put
    have pushed : tree.push l (.ofItem item) = .ok (after.length l, after) := by
      simp only [Tree.push, listItem_ofItem, append, spliced]
    refine ⟨after.length l, after, ?_, ?_, effect⟩
    · rw [pushValue_eq_whole]
      exact whole_of_ok pushed
    · exact formed.evolves (formed.evolves_push new.hasValue pushed)
  have inTree : tree.hasList l = true := (kept.sameBut (.list l)).hasHandle (.list l) present
  have childNew (c : NodeId) (isNode : item = some c) : old.hasNode c = false := by
    subst isNode
    exact (new _ rfl).2
  have outside (c : NodeId) (isNode : item = some c) : ¬ tree.Within (.list l) (.node c) :=
    kept.outside oldOwned present (childNew c isNode)
  have passed := formed.checkItem_eq_ok admitted outside
  cases isOwned : tree.isOwned l with
  | false =>
    refine ⟨_, splice_end_of_free isOwned item, ?_, (SameBut.refl tree _).setItems _,
      kept.sameLinks.setItems l _⟩
    rw [items_setItems _ _ _ _ inTree, if_pos rfl]
  | true =>
    rw [splice_end_of_owned isOwned passed, formed.owned.replaceOwned_end isOwned unheld]
    refine ⟨_, rfl, ?_, ?_, ?_⟩
    · rw [insertItems, items_setItems _ _ _ _ (by simpa using inTree), if_pos rfl, List.append_nil]
    · apply SameBut.setItems
      cases item with
      | none => exact .refl tree _
      | some c => exact (SameBut.refl tree _).setParent c _
    · apply SameLinks.setItems
      cases item with
      | none => exact kept.sameLinks
      | some c => exact kept.sameLinks.setParent (childNew c rfl) _

end Attach

end Arbor.Tree
