import Arbor.Proofs.Edit
import Mathlib.Data.List.Nodup

/-! # Who holds what

A parent link and the place that holds the node are stored apart. `Owned` ties them together: the nodes
a slot or an owned list holds are exactly those whose parent link points there, each once, and the list
of a list field is the one that names the field as its owner. Every edit either leaves the holdings
alone, releases some nodes, or gives a place to nodes that had none; one lemma for each of these three
cases carries the invariant. -/

namespace Arbor.Tree

variable {catalogue : Catalogue}

/-- The nodes a node holds in its slots, or a list that belongs to a field holds as items. -/
def members (tree : Tree catalogue) : Handle → List NodeId
  | .node id => (tree.slots id).filterMap Value.node?
  | .list id => if tree.isOwned id then itemNodes (tree.items id) else []

/-- Nodes have a slot for each field, and the lists in slots are those that belong there. -/
structure Shaped (tree : Tree catalogue) : Prop where
  slots_length : ∀ {n : NodeId}, tree.hasNode n = true →
    (tree.slots n).length = (tree.fields n).length
  list_field : ∀ {n : NodeId} {i : Nat} {l : ListId}, (tree.slots n)[i]? = some (.list l) →
    ∃ field, (tree.fields n)[i]? = some field ∧ field.kind = .list
  owner_iff : ∀ {l : ListId} {n : NodeId} {i : Nat},
    tree.owner? l = some (n, i) ↔ (tree.slots n)[i]? = some (.list l)

/-- Every node is held exactly where its parent link says, and only once. -/
structure Owned (tree : Tree catalogue) : Prop extends Shaped tree where
  item_present : ∀ {l : ListId} {c : NodeId}, some c ∈ tree.items l → tree.hasNode c = true
  nodup : ∀ handle : Handle, (tree.members handle).Nodup
  mem_iff : ∀ {handle : Handle} {c : NodeId},
    c ∈ tree.members handle ↔ tree.parent? (.node c) = some handle

theorem owned_empty (firstUid : Nat) : (empty catalogue firstUid).Owned where
  slots_length := by simp [hasNode, empty]
  list_field := by simp [slots, node?, empty]
  owner_iff := by simp [slots, owner?, node?, list?, empty]
  item_present := by simp [items, list?, empty]
  nodup := by rintro (id | id) <;> simp [members, slots, isOwned, owner?, node?, list?, empty]
  mem_iff := by
    rintro (id | id) c <;>
      simp [members, slots, isOwned, owner?, parent?, node?, list?, empty]

namespace Owned

variable {tree : Tree catalogue}

theorem mem_slot_iff (owned : tree.Owned) {n c : NodeId} :
    .node c ∈ tree.slots n ↔ tree.parent? (.node c) = some (.node n) := by
  rw [← owned.mem_iff, members, List.mem_filterMap]
  constructor
  · intro held
    exact ⟨_, held, rfl⟩
  · rintro ⟨value, held, isNode⟩
    cases value <;> cases isNode
    exact held

theorem mem_item_iff (owned : tree.Owned) {l : ListId} {c : NodeId} :
    tree.isOwned l = true ∧ some c ∈ tree.items l ↔ tree.parent? (.node c) = some (.list l) := by
  rw [← owned.mem_iff, members]
  cases tree.isOwned l <;> simp [itemNodes]

/-- What holds a node or list is itself in the tree. -/
theorem hasHandle_of_parent? (owned : tree.Owned) {inner outer : Handle}
    (held : tree.parent? inner = some outer) : tree.hasHandle outer = true := by
  cases inner with
  | node c =>
    cases outer with
    | node n =>
      obtain ⟨i, bound, found⟩ := List.mem_iff_getElem.mp (owned.mem_slot_iff.mpr held)
      exact hasNode_of_slot (List.getElem?_eq_some_iff.mpr ⟨bound, found⟩)
    | list l => exact hasList_of_isOwned (owned.mem_item_iff.mpr held).1
  | list l =>
    obtain ⟨⟨n, i⟩, owner, rfl⟩ := Option.map_eq_some_iff.mp held
    exact hasNode_of_slot (owned.owner_iff.mp owner)

/-- The field a list belongs to is declared, and is a list field. -/
theorem ownerField? (owned : tree.Owned) {l : ListId} (isOwned : tree.isOwned l = true) :
    ∃ field, tree.ownerField? l = some field ∧ field.kind = .list := by
  obtain ⟨⟨n, i⟩, owner⟩ := Option.isSome_iff_exists.mp isOwned
  obtain ⟨field, declared, isList⟩ := owned.list_field (owned.owner_iff.mp owner)
  exact ⟨field, by simp [Tree.ownerField?, owner, declared], isList⟩

end Owned

/-- The two trees have the same fields, and the same lists in them. -/
structure SameShape (tree after : Tree catalogue) : Prop where
  hasNode : ∀ n, after.hasNode n = tree.hasNode n
  fields : ∀ n, after.fields n = tree.fields n
  length : ∀ n, (after.slots n).length = (tree.slots n).length
  list_iff : ∀ (n : NodeId) (i : Nat) (l : ListId),
    (after.slots n)[i]? = some (.list l) ↔ (tree.slots n)[i]? = some (.list l)
  owner : ∀ l, after.owner? l = tree.owner? l

theorem Shaped.of_sameShape {tree after : Tree catalogue} (shaped : tree.Shaped)
    (same : tree.SameShape after) : after.Shaped where
  slots_length := by
    intro n present
    rw [same.hasNode] at present
    rw [same.length, same.fields, shaped.slots_length present]
  list_field := by
    intro n i l held
    rw [same.fields]
    exact shaped.list_field ((same.list_iff n i l).mp held)
  owner_iff := by
    intro l n i
    rw [same.owner, same.list_iff, shaped.owner_iff]

/-- Nothing changes hands. -/
theorem Owned.of_same {tree after : Tree catalogue} (owned : tree.Owned) (shaped : after.Shaped)
    (present : ∀ (l : ListId) (c : NodeId), some c ∈ after.items l → after.hasNode c = true)
    (members : ∀ handle, (after.members handle).Perm (tree.members handle))
    (parent : ∀ x, after.parent? (.node x) = tree.parent? (.node x)) : after.Owned where
  toShaped := shaped
  item_present := present _ _
  nodup := by
    intro handle
    rw [(members handle).nodup_iff]
    exact owned.nodup handle
  mem_iff := by
    intro handle c
    rw [(members handle).mem_iff, parent, owned.mem_iff]

/-- Some nodes are released. -/
theorem Owned.of_release {tree after : Tree catalogue} (owned : tree.Owned) (shaped : after.Shaped)
    (present : ∀ (l : ListId) (c : NodeId), some c ∈ after.items l → after.hasNode c = true)
    (freed : List NodeId)
    (members : ∀ handle, after.members handle = (tree.members handle).filter (· ∉ freed))
    (parent : ∀ x, after.parent? (.node x) = if x ∈ freed then none else tree.parent? (.node x)) :
    after.Owned where
  toShaped := shaped
  item_present := present _ _
  nodup := by
    intro handle
    rw [members]
    exact (owned.nodup handle).filter _
  mem_iff := by
    intro handle c
    rw [members, parent, List.mem_filter, owned.mem_iff]
    by_cases isFreed : c ∈ freed <;> simp [isFreed]

/-- Nodes that were held nowhere are given to one node or list. -/
theorem Owned.of_grant {tree after : Tree catalogue} (owned : tree.Owned) (shaped : after.Shaped)
    (present : ∀ (l : ListId) (c : NodeId), some c ∈ after.items l → after.hasNode c = true)
    (target : Handle) (added : List NodeId) (distinct : added.Nodup)
    (unheld : ∀ x ∈ added, tree.parent? (.node x) = none)
    (granted : (after.members target).Perm (added ++ tree.members target))
    (others : ∀ handle, handle ≠ target → after.members handle = tree.members handle)
    (parent : ∀ x, after.parent? (.node x) =
      if x ∈ added then some target else tree.parent? (.node x)) : after.Owned where
  toShaped := shaped
  item_present := present _ _
  nodup := by
    intro handle
    by_cases isTarget : handle = target
    · subst isTarget
      rw [granted.nodup_iff]
      refine List.nodup_append.mpr ⟨distinct, owned.nodup handle, ?_⟩
      rintro x isAdded y isMember rfl
      have held := owned.mem_iff.mp isMember
      rw [unheld x isAdded] at held
      contradiction
    · rw [others handle isTarget]
      exact owned.nodup handle
  mem_iff := by
    intro handle c
    rw [parent]
    by_cases isTarget : handle = target
    · subst isTarget
      rw [granted.mem_iff, List.mem_append, owned.mem_iff]
      by_cases isAdded : c ∈ added <;> simp [isAdded]
    · rw [others handle isTarget, owned.mem_iff]
      by_cases isAdded : c ∈ added
      · simp [isAdded, unheld c isAdded, Ne.symm isTarget]
      · simp [isAdded]

section Holdings

theorem mem_itemNodes {items : List (Option NodeId)} {c : NodeId} :
    c ∈ itemNodes items ↔ some c ∈ items := by
  simp [itemNodes]

theorem itemNodes_append (first second : List (Option NodeId)) :
    itemNodes (first ++ second) = itemNodes first ++ itemNodes second :=
  List.filterMap_append

private theorem itemNodes_erase (items : List (Option NodeId)) (c : NodeId) :
    itemNodes (items.erase (some c)) = (itemNodes items).erase c := by
  induction items with
  | nil => rfl
  | cons item rest ih =>
    cases item with
    | none => simpa [itemNodes, List.erase_cons] using ih
    | some x =>
      by_cases same : x = c
      · simp [itemNodes, same]
      · simpa [itemNodes, List.erase_cons, same] using ih

private theorem filterMap_releaseSlot (c : NodeId) (slots : List Value) :
    (releaseSlot c slots).filterMap Value.node? = (slots.filterMap Value.node?).erase c := by
  induction slots with
  | nil => rfl
  | cons value rest ih =>
    cases value with
    | node x =>
      by_cases same : x = c
      · simp [releaseSlot, Value.node?, same, List.filterMap_cons]
      · simp [releaseSlot, Value.node?, same, ih]
    | scalar s => simpa [releaseSlot, Value.node?, List.filterMap_cons] using ih
    | list l => simpa [releaseSlot, Value.node?, List.filterMap_cons] using ih

private theorem length_releaseSlot (c : NodeId) (slots : List Value) :
    (releaseSlot c slots).length = slots.length := by
  induction slots with
  | nil => rfl
  | cons value rest ih =>
    simp only [releaseSlot]
    split <;> simp [ih]

private theorem getElem?_releaseSlot_list (c : NodeId) (slots : List Value) (i : Nat) (l : ListId) :
    (releaseSlot c slots)[i]? = some (.list l) ↔ slots[i]? = some (.list l) := by
  induction slots generalizing i with
  | nil => rfl
  | cons value rest ih =>
    simp only [releaseSlot]
    split
    · next isNode =>
      cases value <;> cases isNode
      cases i <;> simp
    · cases i with
      | zero => simp
      | succ i => simpa using ih i

/-- Nodes in the other slots stay where they are when a slot with a scalar is rewritten. -/
theorem filterMap_set_perm {slots : List Value} {place : Nat} {old : Scalar}
    (held : slots[place]? = some (.scalar old)) (new : Value) :
    ((slots.set place new).filterMap Value.node?).Perm
      (new.node?.toList ++ slots.filterMap Value.node?) := by
  induction slots generalizing place with
  | nil => simp at held
  | cons value rest ih =>
    cases place with
    | zero =>
      obtain rfl : value = .scalar old := by simpa using held
      cases new <;> simp [Value.node?, List.filterMap_cons]
    | succ place =>
      have tail := ih (show rest[place]? = some (.scalar old) by simpa using held)
      cases value with
      | node x =>
        simpa [Value.node?, List.filterMap_cons] using (tail.cons x).trans List.perm_middle.symm
      | scalar s => simpa [Value.node?, List.filterMap_cons] using tail
      | list l => simpa [Value.node?, List.filterMap_cons] using tail

private theorem getElem?_set_list_iff {slots : List Value} {place : Nat} {old : Scalar}
    (held : slots[place]? = some (.scalar old)) {new : Value} (noList : ∀ l, new ≠ .list l) (i : Nat)
    (l : ListId) : (slots.set place new)[i]? = some (.list l) ↔ slots[i]? = some (.list l) := by
  obtain ⟨bound, -⟩ := List.getElem?_eq_some_iff.mp held
  by_cases same : place = i
  · subst same
    rw [List.getElem?_set_self bound, held]
    simp [noList l]
  · rw [List.getElem?_set_ne same]

/-- A list is what stands before, between and after two places. -/
theorem take_append_between {α : Type} {start stop : Nat} (ordered : start ≤ stop) (xs : List α) :
    xs = xs.take start ++ ((xs.take stop).drop start ++ xs.drop stop) := by
  have first : xs.take start = (xs.take stop).take start := by
    rw [List.take_take, Nat.min_eq_left ordered]
  rw [first, ← List.append_assoc, List.take_append_drop, List.take_append_drop]

/-- Taking out a stretch of a list without repetitions leaves what stands before and after it. -/
theorem filter_not_mem_between {before between after : List NodeId}
    (distinct : (before ++ (between ++ after)).Nodup) :
    (before ++ (between ++ after)).filter (· ∉ between) = before ++ after := by
  obtain ⟨-, rest, apart⟩ := List.nodup_append.mp distinct
  obtain ⟨-, -, apartAfter⟩ := List.nodup_append.mp rest
  have keepsBefore : before.filter (· ∉ between) = before := by
    refine List.filter_eq_self.mpr fun x inBefore => ?_
    simp only [decide_eq_true_eq]
    exact fun inBetween => apart x inBefore x (List.mem_append_left _ inBetween) rfl
  have keepsAfter : after.filter (· ∉ between) = after := by
    refine List.filter_eq_self.mpr fun x inAfter => ?_
    simp only [decide_eq_true_eq]
    exact fun inBetween => apartAfter x inBetween x inAfter rfl
  have dropsBetween : between.filter (· ∉ between) = [] := by simp
  rw [List.filter_append, List.filter_append, keepsBefore, keepsAfter, dropsBetween, List.nil_append]

theorem hasNode_of_hasItems {tree : Tree catalogue} {items : List (Option NodeId)}
    (present : tree.hasItems items = true) {c : NodeId} (item : some c ∈ items) :
    tree.hasNode c = true := by
  simpa using List.all_eq_true.mp present _ item

end Holdings

namespace Owned

variable {tree : Tree catalogue}

theorem detach (owned : tree.Owned) (c : NodeId) : (tree.detach c).Owned := by
  have released (handle : Handle) :
      (tree.detach c).members handle = (tree.members handle).erase c := by
    -- Where the node is not held there is nothing to erase.
    have elsewhere (other : tree.parent? (.node c) ≠ some handle) :
        (tree.members handle).erase c = tree.members handle :=
      List.erase_of_not_mem fun member => other (owned.mem_iff.mp member)
    cases handle with
    | node n =>
      rw [members, slots_detach]
      split
      · exact filterMap_releaseSlot c _
      · next other => exact (elsewhere other).symm
    | list l =>
      rw [members, items_detach, isOwned_detach]
      split
      · next other =>
        split
        · next held => simp only [itemNodes_erase, members, other, if_true]
        · next held => simpa only [members, other, if_true] using (elsewhere held).symm
      · next free => simp [members, free]
  refine owned.of_release ?_ ?_ [c] ?_ ?_
  · refine owned.of_sameShape ⟨fun n => hasNode_detach _ _ _, fun n => fields_detach _ _ _, ?_, ?_,
      fun l => owner?_detach _ _ _⟩
    · intro n
      rw [slots_detach]
      split
      · exact length_releaseSlot c _
      · rfl
    · intro n i l
      rw [slots_detach]
      split
      · exact getElem?_releaseSlot_list c _ i l
      · rfl
  · intro l x held
    rw [hasNode_detach]
    rw [items_detach] at held
    split at held
    · exact owned.item_present (List.mem_of_mem_erase held)
    · exact owned.item_present held
  · intro handle
    rw [released, (owned.nodup handle).erase_eq_filter]
    exact List.filter_congr fun x _ => by simp [bne, beq_eq_decide]
  · intro x
    simp [parent?_detach]

theorem write (owned : tree.Owned) {id : NodeId} {place : Nat} {old : Scalar}
    (held : (tree.slots id)[place]? = some (.scalar old)) (new : Scalar) :
    (tree.setSlotValue id place (.scalar new)).Owned := by
  refine owned.of_same ?_ (fun l c item => ?_) ?_ (fun x => parent?_setSlotValue _ _ _ _ _)
  · refine owned.of_sameShape ⟨fun n => hasNode_setSlotValue _ _ _ _ _,
      fun n => fields_setSlotValue _ _ _ _ _, ?_, ?_, fun l => rfl⟩
    · intro n
      rw [slots_setSlotValue]
      split <;> simp
    · intro n i l
      rw [slots_setSlotValue]
      split
      · next same =>
        subst same
        exact getElem?_set_list_iff held (by simp) i l
      · rfl
  · exact (hasNode_setSlotValue _ _ _ _ _).trans (owned.item_present item)
  · intro handle
    cases handle with
    | list l => exact .refl _
    | node n =>
      rw [members, slots_setSlotValue]
      split
      · next same =>
        subst same
        simpa [members, Value.node?] using filterMap_set_perm held (.scalar new)
      · exact .refl _

theorem attach (owned : tree.Owned) {id child : NodeId} {place : Nat} {old : Scalar}
    (held : (tree.slots id)[place]? = some (.scalar old)) (present : tree.hasNode child = true)
    (unheld : tree.parent? (.node child) = none) :
    ((tree.setSlotValue id place (.node child)).setParent (some (.node id)) child).Owned := by
  have slots (n : NodeId) : ((tree.setSlotValue id place (.node child)).setParent (some (.node id))
      child).slots n = if n = id then (tree.slots n).set place (.node child) else tree.slots n := by
    rw [slots_setParent, slots_setSlotValue]
  refine owned.of_grant ?_ (fun l c item => ?_) (.node id) [child] (List.nodup_singleton _) ?_ ?_ ?_ ?_
  · refine owned.of_sameShape ⟨fun n => ?_, fun n => ?_, ?_, ?_, fun l => rfl⟩
    · exact (hasNode_setParent _ _ _ _).trans (hasNode_setSlotValue _ _ _ _ _)
    · exact (fields_setParent _ _ _ _).trans (fields_setSlotValue _ _ _ _ _)
    · intro n
      rw [slots]
      split <;> simp
    · intro n i l
      rw [slots]
      split
      · next same =>
        subst same
        exact getElem?_set_list_iff held (by simp) i l
      · rfl
  · exact ((hasNode_setParent _ _ _ _).trans (hasNode_setSlotValue _ _ _ _ _)).trans
      (owned.item_present item)
  · simpa using unheld
  · rw [members, slots, if_pos rfl]
    exact filterMap_set_perm held (.node child)
  · intro handle other
    cases handle with
    | list l => rfl
    | node n =>
      have different : n ≠ id := fun same => other (congrArg Handle.node same)
      rw [members, slots, if_neg different, members]
  · intro x
    rw [parent?_setParent_of_hasNode _ _ _ _ ((hasNode_setSlotValue _ _ _ _ _).trans present),
      parent?_setSlotValue]
    simp only [List.mem_singleton]

theorem cut (owned : tree.Owned) {l : ListId} (isOwned : tree.isOwned l = true) {start stop : Nat}
    (ordered : start ≤ stop) : (tree.replaceOwned l start stop []).Owned := by
  have present := hasList_of_isOwned isOwned
  have whole : tree.members (.list l) = itemNodes ((tree.items l).take start) ++
      (itemNodes (((tree.items l).take stop).drop start) ++ itemNodes ((tree.items l).drop stop)) := by
    rw [members, if_pos isOwned, ← itemNodes_append, ← itemNodes_append,
      ← take_append_between ordered]
  rw [replaceOwned_nil]
  set removed := itemNodes (((tree.items l).take stop).drop start)
  set kept := (tree.items l).take start ++ (tree.items l).drop stop
  have isMember (x : NodeId) (isRemoved : x ∈ removed) : x ∈ tree.members (.list l) := by
    rw [whole]
    simp [isRemoved]
  -- A node held elsewhere is no item of the list, so it is not released.
  have outside (handle : Handle) (other : handle ≠ .list l) (x : NodeId)
      (inOther : x ∈ tree.members handle) : decide (x ∉ removed) = true := by
    have held := owned.mem_iff.mp inOther
    simp only [decide_eq_true_eq]
    intro isRemoved
    rw [owned.mem_iff.mp (isMember x isRemoved)] at held
    exact other (Option.some.inj held).symm
  refine owned.of_release ?_ ?_ removed ?_ ?_
  · exact owned.of_sameShape ⟨fun n => hasNode_foldl_setParent _ _ _ _,
      fun n => fields_foldl_setParent _ _ _ _, fun n => by simp [setItems],
      fun n i k => by simp [setItems], fun k => by simp⟩
  · intro k c item
    rw [setItems, hasNode_modifyList, hasNode_foldl_setParent]
    obtain inKept | inOld := mem_items_setItems item
    · obtain inFirst | inLast := List.mem_append.mp inKept
      · exact owned.item_present (List.mem_of_mem_take inFirst)
      · exact owned.item_present (List.mem_of_mem_drop inLast)
    · exact owned.item_present (by simpa using inOld)
  · intro handle
    cases handle with
    | node n =>
      rw [List.filter_eq_self.mpr]
      · simp [members, setItems]
      · exact fun x inSlot => outside (.node n) (by simp) x inSlot
    | list k =>
      by_cases same : k = l
      · subst same
        have distinct := owned.nodup (.list k)
        rw [whole] at distinct ⊢
        rw [filter_not_mem_between distinct, ← itemNodes_append, members, isOwned_setItems,
          isOwned_foldl_setParent, if_pos isOwned, items_setItems _ _ _ _ (by simpa using present),
          if_pos rfl]
      · rw [List.filter_eq_self.mpr]
        · rw [members, members, isOwned_setItems, isOwned_foldl_setParent,
            items_setItems _ _ _ _ (by simpa using present), if_neg same, items_foldl_setParent]
        · exact fun x inList => outside (.list k) (by simpa using same) x inList
  · intro x
    rw [parent?_setItems, parent?_foldl_setParent]
    intro x isRemoved
    exact hasNode_of_parent? (owned.mem_iff.mp (isMember x isRemoved))

theorem refill (owned : tree.Owned) {l : ListId} (free : tree.isOwned l = false)
    {items : List (Option NodeId)} (present : tree.hasItems items = true) :
    (tree.setItems l items).Owned := by
  refine owned.of_same ?_ ?_ ?_ (fun x => parent?_setItems _ _ _ _)
  · exact owned.of_sameShape ⟨fun n => rfl, fun n => rfl, fun n => rfl, fun n i k => .rfl,
      fun k => owner?_setItems _ _ _ _⟩
  · intro k c item
    obtain isNew | isOld := mem_items_setItems item
    · exact hasNode_of_hasItems present isNew
    · exact owned.item_present isOld
  · intro handle
    cases handle with
    | node n => exact .refl _
    | list k =>
      rw [members, members, isOwned_setItems]
      split
      · next isOwned =>
        have other : k ≠ l := by
          rintro rfl
          rw [free] at isOwned
          contradiction
        rw [setItems, items_modifyList_of_ne _ _ _ _ other]
      · exact .refl _

theorem insert (owned : tree.Owned) {l : ListId} (isOwned : tree.isOwned l = true)
    {before items after : List (Option NodeId)} (held : tree.items l = before ++ after)
    (present : tree.hasItems items = true) (distinct : (itemNodes items).Nodup)
    (unheld : ∀ child ∈ itemNodes items, tree.parent? (.node child) = none) :
    (tree.insertItems l before items after).Owned := by
  have inTree := hasList_of_isOwned isOwned
  have newItems (k : ListId) : (tree.insertItems l before items after).items k =
      if k = l then before ++ items ++ after else tree.items k := by
    rw [insertItems, items_setItems _ _ _ _ (by simpa using inTree), items_foldl_setParent]
  refine owned.of_grant ?_ ?_ (.list l) (itemNodes items) distinct unheld ?_ ?_ ?_
  · exact owned.of_sameShape ⟨fun n => hasNode_foldl_setParent _ _ _ _,
      fun n => fields_foldl_setParent _ _ _ _, fun n => by simp [insertItems, setItems],
      fun n i k => by simp [insertItems, setItems], fun k => by simp [insertItems]⟩
  · intro k c item
    refine (hasNode_foldl_setParent tree _ _ c).trans ?_
    obtain isNew | isOld := mem_items_setItems item
    · simp only [List.mem_append] at isNew
      obtain (isBefore | isItem) | isAfter := isNew
      · exact owned.item_present (held ▸ List.mem_append_left after isBefore)
      · exact hasNode_of_hasItems present isItem
      · exact owned.item_present (held ▸ List.mem_append_right before isAfter)
    · exact owned.item_present (by simpa using isOld)
  · have stillOwned : (tree.insertItems l before items after).isOwned l = true := by
      simpa [insertItems] using isOwned
    rw [members, members, if_pos stillOwned, if_pos isOwned, newItems, if_pos rfl, held,
      itemNodes_append, itemNodes_append, itemNodes_append, ← List.append_assoc]
    exact List.perm_append_comm.append_right _
  · intro handle other
    cases handle with
    | node n => simp [members, insertItems, setItems]
    | list k =>
      have different : k ≠ l := fun same => other (congrArg Handle.list same)
      rw [members, members, newItems, if_neg different, insertItems, isOwned_setItems,
        isOwned_foldl_setParent]
  · intro x
    rw [insertItems, parent?_setItems, parent?_foldl_setParent]
    exact fun child isItem => hasNode_of_hasItems present (mem_itemNodes.mp isItem)

theorem metadata (owned : tree.Owned) (id : NodeId) (metadata : Record Json) :
    (tree.setMetadata id metadata).Owned := by
  have slots (n : NodeId) : (tree.setMetadata id metadata).slots n = tree.slots n :=
    slots_modifyNode _ _ _ fun _ => rfl
  refine owned.of_same ?_ ?_ ?_ fun x => parent?_modifyNode _ _ _ fun _ => rfl
  · exact owned.of_sameShape ⟨fun n => hasNode_modifyNode _ _ _ _,
      fun n => fields_modifyNode _ _ _ fun _ => rfl, fun n => by rw [slots],
      fun n i l => by rw [slots], fun l => rfl⟩
  · exact fun l c item => (hasNode_modifyNode _ _ _ _).trans (owned.item_present item)
  · intro handle
    cases handle with
    | node n => rw [members, slots, members]
    | list l => exact .refl _

theorem copy (owned : tree.Owned) : tree.copy.Owned := by
  refine owned.of_same ?_ ?_ ?_ fun x => parent?_copy _ _
  · exact owned.of_sameShape ⟨fun n => hasNode_copy _ _, fun n => fields_copy _ _, fun n => by simp,
      fun n i l => by simp, fun l => owner?_copy _ _⟩
  · intro l c item
    rw [hasNode_copy]
    exact owned.item_present (by simpa using item)
  · intro handle
    cases handle <;> simp [members]

theorem list (owned : tree.Owned) {items : List (Option NodeId)}
    (present : tree.hasItems items = true) : (tree.createListOf items).2.Owned := by
  refine owned.of_same ?_ ?_ ?_ fun x => rfl
  · exact owned.of_sameShape ⟨fun n => rfl, fun n => rfl, fun n => rfl, fun n i l => .rfl,
      fun l => owner?_createListOf _ _ _⟩
  · intro l c item
    rw [items_createListOf] at item
    split at item
    · exact hasNode_of_hasItems present item
    · exact owned.item_present item
  · intro handle
    cases handle with
    | node n => exact .refl _
    | list l =>
      rw [members, members, isOwned, owner?_createListOf, ← isOwned]
      split
      · next isOwned =>
        have old := hasList_of_isOwned isOwned
        simp only [hasList, decide_eq_true_eq] at old
        rw [items_createListOf, if_neg (by omega)]
      · exact .refl _

/-- The lists of a new node name it as their owner, and no other list changes owner. -/
theorem owner_iff_allocNode (owned : tree.Owned) (type : TypeId) (fields : List Field) {l : ListId}
    {n : NodeId} {i : Nat} : (tree.allocNode type fields).2.owner? l = some (n, i) ↔
      ((tree.allocNode type fields).2.slots n)[i]? = some (.list l) := by
  have fresh := freshSlots_newSlots tree type fields
  rw [slots_allocNode]
  by_cases old : tree.hasList l = true
  · have bound : l.index < tree.lists.size := by simpa [hasList] using old
    rw [owner?_of_list?_eq (list?_allocNode tree type fields old), owned.owner_iff]
    split
    · next new =>
      constructor
      · intro held
        have missing := missing_newNode tree
        simp [slots, new, missing] at held
      · intro held
        have late : tree.lists.size ≤ l.index := (fresh.list_slot i l held).1
        omega
    · rfl
  · have late : tree.lists.size ≤ l.index := by simpa [hasList] using old
    constructor
    · intro owner
      obtain ⟨j, same, held⟩ := fresh.owner_slot l (n, i) late owner
      simp only [Prod.mk.injEq, Nat.zero_add] at same
      obtain ⟨rfl, rfl⟩ := same
      rw [if_pos rfl]
      exact held
    · intro held
      split at held
      · next new =>
        obtain ⟨-, owner, -⟩ := fresh.list_slot i l held
        rw [Nat.zero_add] at owner
        rw [new]
        exact owner
      · exact absurd (hasList_of_owner? (owned.owner_iff.mpr held)) old

theorem node (owned : tree.Owned) {type : TypeId} {declared : NodeType}
    (found : catalogue.type? type = some declared) :
    (tree.allocNode type declared.fields).2.Owned := by
  have fresh := freshSlots_newSlots tree type declared.fields
  have fields (n : NodeId) : (tree.allocNode type declared.fields).2.fields n =
      if n = ⟨tree.nodes.size⟩ then declared.fields else tree.fields n := by
    rw [Tree.fields, typeOf_allocNode]
    split
    · rw [found]
      rfl
    · rfl
  refine owned.of_same ⟨?_, ?_, owned.owner_iff_allocNode type declared.fields⟩ ?_ ?_
    fun x => parent?_allocNode _ _ _ _
  · intro n present
    rw [slots_allocNode, fields]
    split
    · exact fresh.length_eq
    · next other =>
      obtain ⟨node, entry⟩ := hasNode_iff.mp present
      rw [node?_allocNode, if_neg other] at entry
      exact owned.slots_length (hasNode_iff.mpr ⟨node, entry⟩)
  · intro n i l held
    rw [slots_allocNode] at held
    rw [fields]
    split at held
    · next new =>
      rw [if_pos new]
      exact (fresh.list_slot i l held).2.2
    · next other =>
      rw [if_neg other]
      exact owned.list_field held
  · intro l c item
    rw [items_allocNode] at item
    exact hasNode_allocNode _ _ _ (owned.item_present item)
  · intro handle
    cases handle with
    | node n =>
      rw [members, members, slots_allocNode]
      split
      · next new =>
        have holdsNone : (tree.newSlots type declared.fields).filterMap Value.node? = [] := by
          rw [List.filterMap_eq_nil_iff]
          intro value inSlots
          obtain ⟨i, bound, at_i⟩ := List.mem_iff_getElem.mp inSlots
          cases value with
          | node c => exact absurd (List.getElem?_eq_some_iff.mpr ⟨bound, at_i⟩) (fresh.no_node i c)
          | scalar s => rfl
          | list l => rfl
        have empty : tree.slots n = [] := by simp [slots, new, missing_newNode]
        rw [holdsNone, empty]
        exact .refl _
      · exact .refl _
    | list l =>
      rw [members, members, items_allocNode]
      by_cases old : tree.hasList l = true
      · rw [isOwned, owner?_of_list?_eq (list?_allocNode tree type _ old), ← isOwned]
      · have empty : tree.items l = [] := by simp [items, list?_of_not_hasList old]
        simp [empty, itemNodes]

end Owned

/-- Every edit keeps nodes and their places together. -/
theorem Owned.edit {tree after : Tree catalogue} (owned : tree.Owned) (edit : Edit tree after) :
    after.Owned := by
  cases edit with
  | node type declared found concrete => exact owned.node found
  | list items present => exact owned.list present
  | metadata id metadata => exact owned.metadata id metadata
  | copy => exact owned.copy
  | detach id => exact owned.detach id
  | write id place field old new held declared admitted => exact owned.write held new
  | attach id child place field old held declared admitted present unheld outside =>
    exact owned.attach held present unheld
  | cut l start stop isOwned ordered => exact owned.cut isOwned ordered
  | insert l field before items after isOwned held declared admitted present distinct unheld outside =>
    exact owned.insert isOwned held present distinct unheld
  | refill l items free present => exact owned.refill free present

end Arbor.Tree
