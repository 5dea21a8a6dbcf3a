import Arbor.Tree.Operation

/-! # Reading a store after a change

A change of a tree rewrites one node, rewrites one list, or adds entries at the end. For each kind of
change this module says once what every reading function gives afterwards, so that no later proof
looks at the arrays. Entries are never taken out, which is why the lemmas about sizes are equalities
here and inequalities only where something is added. -/

/-- A changed result is a success exactly if the result was one. -/
theorem Arbor.map_eq_ok {ε α β : Type} {change : α → β} {result : Except ε α} {b : β} :
    result.map change = .ok b ↔ ∃ a, result = .ok a ∧ change a = b := by
  cases result <;> simp [Except.map]

namespace Arbor.Tree

variable {catalogue : Catalogue}

/-- Trees with the same entries and the same next identity are the same. -/
theorem eq_of_entries {a b : Tree catalogue} (nodes : ∀ id, a.node? id = b.node? id)
    (lists : ∀ id, a.list? id = b.list? id) (next : a.nextUid = b.nextUid) : a = b := by
  obtain ⟨aNodes, aLists, aNext⟩ := a
  obtain ⟨bNodes, bLists, bNext⟩ := b
  have sameNodes : aNodes = bNodes := Array.ext_getElem? fun i => nodes ⟨i⟩
  have sameLists : aLists = bLists := Array.ext_getElem? fun i => lists ⟨i⟩
  subst sameNodes sameLists next
  rfl

theorem hasNode_iff {tree : Tree catalogue} {id : NodeId} :
    tree.hasNode id = true ↔ ∃ node, tree.node? id = some node := by
  simp [hasNode, node?, ← Option.isSome_iff_exists]

theorem hasList_iff {tree : Tree catalogue} {id : ListId} :
    tree.hasList id = true ↔ ∃ list, tree.list? id = some list := by
  simp [hasList, list?, ← Option.isSome_iff_exists]

/-- A field reads what the slot in its place holds. -/
theorem getElem?_readings_iff {tree : Tree catalogue} {n : NodeId} {i : Nat} {field : Field}
    {value : Value} : (tree.readings n)[i]? = some (field, value) ↔
      (tree.fields n)[i]? = some field ∧
        ∃ held, (tree.slots n)[i]? = some held ∧ field.read held = value := by
  simp only [readings, List.getElem?_map, Option.map_eq_some_iff, Prod.exists,
    List.getElem?_zip_eq_some, Prod.mk.injEq]
  constructor
  · rintro ⟨_, held, ⟨declared, isHeld⟩, rfl, read⟩
    exact ⟨declared, held, isHeld, read⟩
  · rintro ⟨declared, held, isHeld, read⟩
    exact ⟨field, held, ⟨declared, isHeld⟩, rfl, read⟩

/-- What is read under a name is what a slot of a field of that name holds. -/
theorem exists_of_get {tree : Tree catalogue} {n : NodeId} {name : String} {value : Value}
    (read : tree.get n name = .ok value) :
    ∃ (i : Nat) (field : Field) (held : Value), (tree.fields n)[i]? = some field ∧ field.name = name ∧
      (tree.slots n)[i]? = some held ∧ field.read held = value := by
  rw [get] at read
  split at read
  · next field _ found =>
    cases read
    have named : field.name = name := by simpa using List.find?_some found
    obtain ⟨i, isEntry⟩ := List.mem_iff_getElem?.mp (List.mem_of_find?_eq_some found)
    obtain ⟨declared, held, isHeld, isRead⟩ := getElem?_readings_iff.mp isEntry
    exact ⟨i, field, held, declared, named, isHeld, isRead⟩
  · contradiction

theorem hasNode_of_parent? {tree : Tree catalogue} {id : NodeId} {parent : Handle}
    (held : tree.parent? (.node id) = some parent) : tree.hasNode id = true := by
  obtain ⟨node, found, -⟩ := Option.bind_eq_some_iff.mp held
  exact hasNode_iff.mpr ⟨node, found⟩

theorem hasNode_of_slot {tree : Tree catalogue} {id : NodeId} {place : Nat} {value : Value}
    (held : (tree.slots id)[place]? = some value) : tree.hasNode id = true := by
  cases found : tree.node? id with
  | none => simp [slots, found] at held
  | some node => exact hasNode_iff.mpr ⟨node, found⟩

theorem hasList_of_owner? {tree : Tree catalogue} {id : ListId} {owner : NodeId × Nat}
    (owned : tree.owner? id = some owner) : tree.hasList id = true := by
  obtain ⟨list, found, -⟩ := Option.bind_eq_some_iff.mp owned
  exact hasList_iff.mpr ⟨list, found⟩

theorem hasList_of_isOwned {tree : Tree catalogue} {id : ListId} (owned : tree.isOwned id = true) :
    tree.hasList id = true := by
  obtain ⟨owner, found⟩ := Option.isSome_iff_exists.mp owned
  exact hasList_of_owner? found

theorem hasList_of_item {tree : Tree catalogue} {id : ListId} {item : Option NodeId}
    (held : item ∈ tree.items id) : tree.hasList id = true := by
  cases found : tree.list? id with
  | none => simp [items, found] at held
  | some list => exact hasList_iff.mpr ⟨list, found⟩

section Node

variable (tree : Tree catalogue) (id x : NodeId) (change : Node → Node)

theorem node?_modifyNode : (tree.modifyNode id change).node? x =
    if x = id then (tree.node? x).map change else tree.node? x := by
  obtain ⟨x⟩ := x
  obtain ⟨id⟩ := id
  by_cases same : x = id
  · subst same
    simp [modifyNode, node?, Array.getElem?_modify]
  · simp [modifyNode, node?, Array.getElem?_modify, same, Ne.symm same]

/-- What a change leaves alone in the node reads as before everywhere. -/
theorem map_node?_modifyNode {β : Type} (get : Node → β)
    (keeps : ∀ node, get (change node) = get node) :
    ((tree.modifyNode id change).node? x).map get = (tree.node? x).map get := by
  rw [node?_modifyNode]
  split
  · cases tree.node? x <;> simp [keeps]
  · rfl

@[simp] theorem list?_modifyNode (l : ListId) : (tree.modifyNode id change).list? l = tree.list? l :=
  rfl

@[simp] theorem items_modifyNode (l : ListId) : (tree.modifyNode id change).items l = tree.items l :=
  rfl

@[simp] theorem owner?_modifyNode (l : ListId) :
    (tree.modifyNode id change).owner? l = tree.owner? l := rfl

@[simp] theorem isOwned_modifyNode (l : ListId) :
    (tree.modifyNode id change).isOwned l = tree.isOwned l := rfl

@[simp] theorem parent?_modifyNode_list (l : ListId) :
    (tree.modifyNode id change).parent? (.list l) = tree.parent? (.list l) := rfl

@[simp] theorem hasList_modifyNode (l : ListId) :
    (tree.modifyNode id change).hasList l = tree.hasList l := rfl

@[simp] theorem hasNode_modifyNode : (tree.modifyNode id change).hasNode x = tree.hasNode x := by
  simp [hasNode, modifyNode]

@[simp] theorem nextUid_modifyNode : (tree.modifyNode id change).nextUid = tree.nextUid := rfl

variable {change}

theorem typeOf_modifyNode (keeps : ∀ node, (change node).type = node.type) :
    (tree.modifyNode id change).typeOf x = tree.typeOf x := by
  rw [typeOf, typeOf, map_node?_modifyNode tree id x change _ keeps]

theorem fields_modifyNode (keeps : ∀ node, (change node).type = node.type) :
    (tree.modifyNode id change).fields x = tree.fields x := by
  rw [fields, fields, typeOf_modifyNode tree id x keeps]

theorem slots_modifyNode (keeps : ∀ node, (change node).slots = node.slots) :
    (tree.modifyNode id change).slots x = tree.slots x := by
  rw [slots, slots, map_node?_modifyNode tree id x change _ keeps]

theorem parent?_modifyNode (keeps : ∀ node, (change node).parent = node.parent) :
    (tree.modifyNode id change).parent? (.node x) = tree.parent? (.node x) := by
  have same := map_node?_modifyNode tree id x change _ keeps
  simp only [parent?]
  cases after : (tree.modifyNode id change).node? x <;> cases before : tree.node? x <;>
    simp_all

theorem uid_modifyNode (keeps : ∀ node, (change node).uid = node.uid) (handle : Handle) :
    (tree.modifyNode id change).uid handle = tree.uid handle := by
  cases handle with
  | list l => rfl
  | node x => simp only [uid, map_node?_modifyNode tree id x change _ keeps]

end Node

section List

variable (tree : Tree catalogue) (id l : ListId) (change : NodeList → NodeList)

theorem list?_modifyList : (tree.modifyList id change).list? l =
    if l = id then (tree.list? l).map change else tree.list? l := by
  obtain ⟨l⟩ := l
  obtain ⟨id⟩ := id
  by_cases same : l = id
  · subst same
    simp [modifyList, list?, Array.getElem?_modify]
  · simp [modifyList, list?, Array.getElem?_modify, same, Ne.symm same]

@[simp] theorem node?_modifyList (x : NodeId) : (tree.modifyList id change).node? x = tree.node? x :=
  rfl

@[simp] theorem slots_modifyList (x : NodeId) : (tree.modifyList id change).slots x = tree.slots x :=
  rfl

@[simp] theorem typeOf_modifyList (x : NodeId) :
    (tree.modifyList id change).typeOf x = tree.typeOf x := rfl

@[simp] theorem fields_modifyList (x : NodeId) :
    (tree.modifyList id change).fields x = tree.fields x := rfl

@[simp] theorem parent?_modifyList_node (x : NodeId) :
    (tree.modifyList id change).parent? (.node x) = tree.parent? (.node x) := rfl

@[simp] theorem hasNode_modifyList (x : NodeId) :
    (tree.modifyList id change).hasNode x = tree.hasNode x := rfl

@[simp] theorem hasList_modifyList : (tree.modifyList id change).hasList l = tree.hasList l := by
  simp [hasList, modifyList]

@[simp] theorem nextUid_modifyList : (tree.modifyList id change).nextUid = tree.nextUid := rfl

theorem items_modifyList_of_ne (other : l ≠ id) :
    (tree.modifyList id change).items l = tree.items l := by
  rw [items, items, list?_modifyList, if_neg other]

variable {change}

theorem owner?_modifyList (keeps : ∀ list, (change list).owner = list.owner) :
    (tree.modifyList id change).owner? l = tree.owner? l := by
  rw [owner?, owner?, list?_modifyList]
  split
  · cases tree.list? l <;> simp [keeps]
  · rfl

theorem uid_modifyList (keeps : ∀ list, (change list).uid = list.uid) (handle : Handle) :
    (tree.modifyList id change).uid handle = tree.uid handle := by
  cases handle with
  | node x => rfl
  | list l =>
    simp only [uid, list?_modifyList]
    split
    · cases tree.list? l <;> simp [keeps]
    · rfl

end List

section Named

variable (tree : Tree catalogue) (id x : NodeId) (l : ListId)

theorem parent?_setParent (parent : Option Handle) : (tree.setParent parent id).parent? (.node x) =
    if x = id then (tree.node? x).bind fun _ => parent else tree.parent? (.node x) := by
  simp only [parent?, setParent, node?_modifyNode]
  split
  · cases tree.node? x <;> rfl
  · rfl

theorem parent?_setParent_of_hasNode (parent : Option Handle) (present : tree.hasNode id = true) :
    (tree.setParent parent id).parent? (.node x) =
      if x = id then parent else tree.parent? (.node x) := by
  rw [parent?_setParent]
  split
  · next same =>
    subst same
    obtain ⟨node, found⟩ := hasNode_iff.mp present
    rw [found, Option.bind_some]
  · rfl

@[simp] theorem hasNode_setParent (parent : Option Handle) :
    (tree.setParent parent id).hasNode x = tree.hasNode x := hasNode_modifyNode _ _ _ _

@[simp] theorem slots_setParent (parent : Option Handle) :
    (tree.setParent parent id).slots x = tree.slots x :=
  slots_modifyNode _ _ _ fun _ => rfl

@[simp] theorem typeOf_setParent (parent : Option Handle) :
    (tree.setParent parent id).typeOf x = tree.typeOf x :=
  typeOf_modifyNode _ _ _ fun _ => rfl

@[simp] theorem fields_setParent (parent : Option Handle) :
    (tree.setParent parent id).fields x = tree.fields x :=
  fields_modifyNode _ _ _ fun _ => rfl

@[simp] theorem uid_setParent (parent : Option Handle) (handle : Handle) :
    (tree.setParent parent id).uid handle = tree.uid handle := by
  unfold setParent
  rw [uid_modifyNode]
  exact fun _ => rfl

theorem slots_setSlotValue (place : Nat) (value : Value) :
    (tree.setSlotValue id place value).slots x =
      if x = id then (tree.slots x).set place value else tree.slots x := by
  simp only [slots, setSlotValue, node?_modifyNode]
  split
  · cases tree.node? x <;> simp
  · rfl

@[simp] theorem hasNode_setSlotValue (place : Nat) (value : Value) :
    (tree.setSlotValue id place value).hasNode x = tree.hasNode x := hasNode_modifyNode _ _ _ _

@[simp] theorem parent?_setSlotValue (place : Nat) (value : Value) :
    (tree.setSlotValue id place value).parent? (.node x) = tree.parent? (.node x) :=
  parent?_modifyNode _ _ _ fun _ => rfl

@[simp] theorem typeOf_setSlotValue (place : Nat) (value : Value) :
    (tree.setSlotValue id place value).typeOf x = tree.typeOf x :=
  typeOf_modifyNode _ _ _ fun _ => rfl

@[simp] theorem fields_setSlotValue (place : Nat) (value : Value) :
    (tree.setSlotValue id place value).fields x = tree.fields x :=
  fields_modifyNode _ _ _ fun _ => rfl

@[simp] theorem uid_setSlotValue (place : Nat) (value : Value) (handle : Handle) :
    (tree.setSlotValue id place value).uid handle = tree.uid handle := by
  unfold setSlotValue
  rw [uid_modifyNode]
  exact fun _ => rfl

theorem items_setItems (items : List (Option NodeId)) (k : ListId) (present : tree.hasList l = true) :
    (tree.setItems l items).items k = if k = l then items else tree.items k := by
  by_cases same : k = l
  · subst same
    obtain ⟨list, found⟩ := hasList_iff.mp present
    simp [Tree.items, setItems, list?_modifyList, found]
  · simp only [setItems, items_modifyList_of_ne _ _ _ _ same, if_neg same]

theorem mem_items_setItems {tree : Tree catalogue} {l k : ListId} {items : List (Option NodeId)}
    {item : Option NodeId} (held : item ∈ (tree.setItems l items).items k) :
    item ∈ items ∨ item ∈ tree.items k := by
  by_cases same : k = l
  · subst same
    have present : tree.hasList k = true := (hasList_modifyList _ _ _ _).symm.trans (hasList_of_item held)
    rw [items_setItems _ _ _ _ present, if_pos rfl] at held
    exact .inl held
  · rw [setItems, items_modifyList_of_ne _ _ _ _ same] at held
    exact .inr held

@[simp] theorem hasList_setItems (items : List (Option NodeId)) (k : ListId) :
    (tree.setItems l items).hasList k = tree.hasList k := hasList_modifyList _ _ _ _

@[simp] theorem owner?_setItems (items : List (Option NodeId)) (k : ListId) :
    (tree.setItems l items).owner? k = tree.owner? k :=
  owner?_modifyList _ _ _ fun _ => rfl

@[simp] theorem isOwned_setItems (items : List (Option NodeId)) (k : ListId) :
    (tree.setItems l items).isOwned k = tree.isOwned k := by
  simp [isOwned]

@[simp] theorem parent?_setItems (items : List (Option NodeId)) (handle : Handle) :
    (tree.setItems l items).parent? handle = tree.parent? handle := by
  cases handle with
  | node x => rfl
  | list k => simp [parent?]

@[simp] theorem uid_setItems (items : List (Option NodeId)) (handle : Handle) :
    (tree.setItems l items).uid handle = tree.uid handle := by
  unfold setItems
  rw [uid_modifyList]
  exact fun _ => rfl

end Named

section Detach

variable (tree : Tree catalogue) (id x : NodeId)

theorem parent?_detach : (tree.detach id).parent? (.node x) =
    if x = id then none else tree.parent? (.node x) := by
  have cleared : (tree.setParent none id).parent? (.node x) =
      if x = id then none else tree.parent? (.node x) := by
    rw [parent?_setParent]
    simp
  unfold detach
  split
  · next unheld =>
    split
    · next same => rw [same, unheld]
    · rfl
  · rw [parent?_modifyNode, cleared]
    exact fun _ => rfl
  · rw [parent?_modifyList_node, cleared]

theorem slots_detach : (tree.detach id).slots x =
    if tree.parent? (.node id) = some (.node x) then releaseSlot id (tree.slots x)
    else tree.slots x := by
  unfold detach
  split
  · next unheld => simp [unheld]
  · next owner held =>
    by_cases same : x = owner
    · subst same
      rw [if_pos held, ← slots_setParent tree id x none]
      simp only [slots, node?_modifyNode, if_true]
      cases (tree.setParent none id).node? x <;> simp [releaseSlot]
    · have other : tree.parent? (.node id) ≠ some (.node x) := by
        rw [held]
        simpa using Ne.symm same
      rw [if_neg other, slots, node?_modifyNode, if_neg same]
      exact slots_setParent tree id x none
  · next list held => simp [held]

theorem items_detach (l : ListId) : (tree.detach id).items l =
    if tree.parent? (.node id) = some (.list l) then (tree.items l).erase (some id)
    else tree.items l := by
  unfold detach
  split
  · next unheld => simp [unheld]
  · next owner held => simp [held, setParent]
  · next list held =>
    by_cases same : l = list
    · subst same
      rw [if_pos held, items, list?_modifyList, if_pos rfl, items]
      simp only [setParent, list?_modifyNode]
      cases tree.list? l <;> simp
    · have other : tree.parent? (.node id) ≠ some (.list l) := by
        rw [held]
        simpa using Ne.symm same
      rw [if_neg other, items_modifyList_of_ne _ _ _ _ same]
      rfl

@[simp] theorem owner?_detach (l : ListId) : (tree.detach id).owner? l = tree.owner? l := by
  unfold detach
  split
  · rfl
  · rfl
  · rw [owner?_modifyList]
    · rfl
    · exact fun _ => rfl

@[simp] theorem isOwned_detach (l : ListId) : (tree.detach id).isOwned l = tree.isOwned l := by
  simp [isOwned]

@[simp] theorem typeOf_detach : (tree.detach id).typeOf x = tree.typeOf x := by
  unfold detach
  split
  · rfl
  · rw [typeOf_modifyNode, typeOf_setParent]
    exact fun _ => rfl
  · rw [typeOf_modifyList, typeOf_setParent]

@[simp] theorem fields_detach : (tree.detach id).fields x = tree.fields x := by
  rw [fields, fields, typeOf_detach]

@[simp] theorem uid_detach (handle : Handle) : (tree.detach id).uid handle = tree.uid handle := by
  unfold detach
  split
  · rfl
  · rw [uid_modifyNode, uid_setParent]
    exact fun _ => rfl
  · rw [uid_modifyList, uid_setParent]
    exact fun _ => rfl

@[simp] theorem hasNode_detach : (tree.detach id).hasNode x = tree.hasNode x := by
  unfold detach
  split <;> simp [setParent]

@[simp] theorem hasList_detach (l : ListId) : (tree.detach id).hasList l = tree.hasList l := by
  unfold detach
  split <;> simp [setParent]

@[simp] theorem nextUid_detach : (tree.detach id).nextUid = tree.nextUid := by
  unfold detach
  split <;> rfl

end Detach

end Arbor.Tree
