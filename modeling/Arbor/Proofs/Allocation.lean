import Arbor.Proofs.Store

/-! # New nodes and lists

What a tree reads as after entries were added. A new node comes with one list for each of its list
fields; `FreshSlots` says all there is to know about them, by the recursion over the fields. Copying a
tree adds nothing: it replaces the identities and leaves the rest. -/

namespace Arbor.Tree

variable {catalogue : Catalogue}

theorem list?_allocList (tree : Tree catalogue) (owner : Option (NodeId × Nat)) (l : ListId) :
    (tree.allocList owner).2.list? l =
      if l.index = tree.lists.size then some ⟨tree.nextUid, owner, []⟩ else tree.list? l := by
  simp [allocList, list?, Array.getElem?_push]

theorem list?_of_not_hasList {tree : Tree catalogue} {l : ListId} (missing : ¬ tree.hasList l = true) :
    tree.list? l = none := by
  simpa [hasList, list?] using missing

theorem node?_of_not_hasNode {tree : Tree catalogue} {x : NodeId} (missing : ¬ tree.hasNode x = true) :
    tree.node? x = none := by
  simpa [hasNode, node?] using missing

private theorem items_allocList (tree : Tree catalogue) (owner : Option (NodeId × Nat))
    (l : ListId) : (tree.allocList owner).2.items l = tree.items l := by
  rw [items, list?_allocList]
  split
  · next fresh =>
    have missing : tree.list? l = none := list?_of_not_hasList (by simp [hasList, fresh])
    simp [items, missing]
  · rfl

section Slots

/-- The slots made for some fields of a new node, numbered from `place` on, and what the tree is
afterwards. -/
structure FreshSlots (before after : Tree catalogue) (id : NodeId) (place : Nat)
    (fields : List Field) (slots : List Value) : Prop where
  nodes : after.nodes = before.nodes
  lists_kept : ∀ l, before.hasList l = true → after.list? l = before.list? l
  lists_grow : before.lists.size ≤ after.lists.size
  items_kept : ∀ l, after.items l = before.items l
  uid_fresh : ∀ l : ListId, before.lists.size ≤ l.index → after.hasList l = true →
    after.uid (.list l) = before.nextUid + (l.index - before.lists.size)
  nextUid_eq : after.nextUid = before.nextUid + (after.lists.size - before.lists.size)
  length_eq : slots.length = fields.length
  no_node : ∀ (i : Nat) (c : NodeId), slots[i]? ≠ some (.node c)
  list_slot : ∀ (i : Nat) (l : ListId), slots[i]? = some (.list l) →
    before.lists.size ≤ l.index ∧ after.owner? l = some (id, place + i) ∧
      ∃ field, fields[i]? = some field ∧ field.kind = .list
  owner_slot : ∀ (l : ListId) (owner : NodeId × Nat), before.lists.size ≤ l.index →
    after.owner? l = some owner →
      ∃ i, owner = (id, place + i) ∧ slots[i]? = some (.list l)

theorem owner?_of_list?_eq {a b : Tree catalogue} {l : ListId} (same : a.list? l = b.list? l) :
    a.owner? l = b.owner? l := by
  rw [owner?, owner?, same]

theorem not_lt_of_owner? {tree : Tree catalogue} {l : ListId} {owner : NodeId × Nat}
    (owned : tree.owner? l = some owner) : ¬ tree.lists.size ≤ l.index := by
  have present := hasList_of_owner? owned
  simp only [hasList, decide_eq_true_eq] at present
  omega

/-- One more field that holds no list. -/
theorem FreshSlots.cons_scalar {before after : Tree catalogue} {id : NodeId} {place : Nat}
    {field : Field} {fields : List Field} {slots : List Value}
    (rest : FreshSlots before after id (place + 1) fields slots) :
    FreshSlots before after id place (field :: fields) (.undefined :: slots) where
  nodes := rest.nodes
  lists_kept := rest.lists_kept
  lists_grow := rest.lists_grow
  items_kept := rest.items_kept
  uid_fresh := rest.uid_fresh
  nextUid_eq := rest.nextUid_eq
  length_eq := by simp [rest.length_eq]
  no_node := by
    intro i c
    cases i with
    | zero => simp
    | succ i => simpa using rest.no_node i c
  list_slot := by
    intro i l held
    cases i with
    | zero => simp at held
    | succ i =>
      obtain ⟨fresh, owned, declared⟩ := rest.list_slot i l (by simpa using held)
      exact ⟨fresh, by rw [owned, Nat.add_assoc, Nat.add_comm 1], by simpa using declared⟩
  owner_slot := by
    intro l owner fresh owned
    obtain ⟨i, rfl, held⟩ := rest.owner_slot l owner fresh owned
    exact ⟨i + 1, by rw [Nat.add_assoc, Nat.add_comm 1], by simpa using held⟩

/-- One more field, whose list was made just before those of the other fields. -/
theorem FreshSlots.cons_list {before after : Tree catalogue} {id : NodeId} {place : Nat}
    {field : Field} {fields : List Field} {slots : List Value} (isList : field.kind = .list)
    (rest : FreshSlots (before.allocList (some (id, place))).2 after id (place + 1) fields slots) :
    FreshSlots before after id place (field :: fields) (.list ⟨before.lists.size⟩ :: slots) := by
  have size : (before.allocList (some (id, place))).2.lists.size = before.lists.size + 1 := by
    simp [allocList]
  have next : (before.allocList (some (id, place))).2.nextUid = before.nextUid + 1 := rfl
  have grown := rest.lists_grow
  have own : (before.allocList (some (id, place))).2.hasList ⟨before.lists.size⟩ = true := by
    simp [hasList, allocList]
  have ownEntry : after.list? ⟨before.lists.size⟩ = some ⟨before.nextUid, some (id, place), []⟩ := by
    rw [rest.lists_kept _ own, list?_allocList, if_pos rfl]
  have ownOwner : after.owner? ⟨before.lists.size⟩ = some (id, place) := by
    rw [owner?, ownEntry]
    rfl
  refine ⟨rest.nodes, ?_, by omega, ?_, ?_, ?_, by simp [rest.length_eq], ?_, ?_, ?_⟩
  · intro l present
    have bound : l.index < before.lists.size := by simpa [hasList] using present
    have kept : (before.allocList (some (id, place))).2.hasList l = true := by
      simp only [hasList, size, decide_eq_true_eq]
      omega
    rw [rest.lists_kept l kept, list?_allocList, if_neg (by omega)]
  · intro l
    rw [rest.items_kept, items_allocList]
  · intro l fresh present
    by_cases first : l.index = before.lists.size
    · obtain ⟨index⟩ := l
      subst first
      simp [uid, ownEntry]
    · rw [rest.uid_fresh l (by omega) present, size, next]
      omega
  · rw [rest.nextUid_eq, size, next]
    omega
  · intro i c
    cases i with
    | zero => simp
    | succ i => simpa using rest.no_node i c
  · intro i l held
    cases i with
    | zero =>
      obtain rfl : (⟨before.lists.size⟩ : ListId) = l := by simpa using held
      exact ⟨Nat.le_refl _, ownOwner, field, rfl, isList⟩
    | succ i =>
      obtain ⟨fresh, owned, declared⟩ := rest.list_slot i l (by simpa using held)
      exact ⟨by omega, by rw [owned, Nat.add_assoc, Nat.add_comm 1], by simpa using declared⟩
  · intro l owner fresh owned
    by_cases first : l.index = before.lists.size
    · obtain ⟨index⟩ := l
      subst first
      rw [ownOwner] at owned
      cases owned
      exact ⟨0, rfl, rfl⟩
    · obtain ⟨i, rfl, held⟩ := rest.owner_slot l owner (by omega) owned
      exact ⟨i + 1, by rw [Nat.add_assoc, Nat.add_comm 1], by simpa using held⟩

private theorem freshSlots_allocSlots (tree : Tree catalogue) (id : NodeId) (place : Nat)
    (fields : List Field) :
    FreshSlots tree (tree.allocSlots id place fields).2 id place fields
      (tree.allocSlots id place fields).1 := by
  induction fields generalizing tree place with
  | nil =>
    refine ⟨rfl, fun _ _ => rfl, Nat.le_refl _, fun _ => rfl, ?_, ?_, rfl, ?_, ?_, ?_⟩
    · intro l fresh present
      have bound : l.index < tree.lists.size := of_decide_eq_true present
      omega
    · simp [allocSlots]
    · simp [allocSlots]
    · simp [allocSlots]
    · intro l owner fresh owned
      exact absurd fresh (not_lt_of_owner? owned)
  | cons field rest ih =>
    simp only [allocSlots]
    split
    · next isList => exact .cons_list isList (ih _ _)
    · exact .cons_scalar (ih _ _)

end Slots

/-- The tree with a node of the given type at the end, before its slots are made. -/
def pushNode (tree : Tree catalogue) (type : TypeId) : Tree catalogue :=
  { tree with
    nodes := tree.nodes.push ⟨tree.nextUid, type, none, [], []⟩
    nextUid := tree.nextUid + 1 }

/-- The slots of a new node with the given fields. -/
def newSlots (tree : Tree catalogue) (type : TypeId) (fields : List Field) : List Value :=
  ((tree.pushNode type).allocSlots ⟨tree.nodes.size⟩ 0 fields).1

theorem freshSlots_newSlots (tree : Tree catalogue) (type : TypeId) (fields : List Field) :
    FreshSlots (tree.pushNode type) ((tree.pushNode type).allocSlots ⟨tree.nodes.size⟩ 0 fields).2
      ⟨tree.nodes.size⟩ 0 fields (tree.newSlots type fields) :=
  freshSlots_allocSlots _ _ _ _

theorem allocNode_snd (tree : Tree catalogue) (type : TypeId) (fields : List Field) :
    (tree.allocNode type fields).2 =
      ((tree.pushNode type).allocSlots ⟨tree.nodes.size⟩ 0 fields).2.modifyNode ⟨tree.nodes.size⟩
        fun node => { node with slots := tree.newSlots type fields } := rfl

theorem node?_allocNode (tree : Tree catalogue) (type : TypeId) (fields : List Field) (x : NodeId) :
    (tree.allocNode type fields).2.node? x =
      if x = ⟨tree.nodes.size⟩ then
        some ⟨tree.nextUid, type, none, tree.newSlots type fields, []⟩
      else tree.node? x := by
  have nodes := (freshSlots_newSlots tree type fields).nodes
  have pushed : ((tree.pushNode type).allocSlots ⟨tree.nodes.size⟩ 0 fields).2.node? x =
      if x = ⟨tree.nodes.size⟩ then some ⟨tree.nextUid, type, none, [], []⟩ else tree.node? x := by
    obtain ⟨x⟩ := x
    rw [node?, nodes]
    simp [node?, pushNode, Array.getElem?_push]
  rw [allocNode_snd, node?_modifyNode]
  by_cases new : x = ⟨tree.nodes.size⟩
  · rw [if_pos new, if_pos new, pushed, if_pos new]
    rfl
  · rw [if_neg new, if_neg new, pushed, if_neg new]

section Node

variable (tree : Tree catalogue) (type : TypeId) (fields : List Field)

theorem missing_newNode : tree.node? ⟨tree.nodes.size⟩ = none :=
  node?_of_not_hasNode (by simp [hasNode])

theorem slots_allocNode (x : NodeId) : (tree.allocNode type fields).2.slots x =
    if x = ⟨tree.nodes.size⟩ then tree.newSlots type fields else tree.slots x := by
  rw [slots, node?_allocNode]
  split <;> rfl

theorem typeOf_allocNode (x : NodeId) : (tree.allocNode type fields).2.typeOf x =
    if x = ⟨tree.nodes.size⟩ then type else tree.typeOf x := by
  rw [typeOf, node?_allocNode]
  split <;> rfl

theorem parent?_allocNode (x : NodeId) :
    (tree.allocNode type fields).2.parent? (.node x) = tree.parent? (.node x) := by
  rw [parent?, node?_allocNode]
  split
  · next new => simp [parent?, new, missing_newNode]
  · rfl

theorem items_allocNode (l : ListId) : (tree.allocNode type fields).2.items l = tree.items l :=
  (freshSlots_newSlots tree type fields).items_kept l

theorem list?_allocNode {l : ListId} (present : tree.hasList l = true) :
    (tree.allocNode type fields).2.list? l = tree.list? l :=
  (freshSlots_newSlots tree type fields).lists_kept l present

theorem hasNode_allocNode {x : NodeId} (present : tree.hasNode x = true) :
    (tree.allocNode type fields).2.hasNode x = true := by
  obtain ⟨node, found⟩ := hasNode_iff.mp present
  rw [hasNode_iff, node?_allocNode]
  split
  · exact ⟨_, rfl⟩
  · exact ⟨node, found⟩

theorem hasNode_newNode : (tree.allocNode type fields).2.hasNode ⟨tree.nodes.size⟩ = true :=
  hasNode_iff.mpr ⟨_, (node?_allocNode tree type fields _).trans (if_pos rfl)⟩

theorem hasList_allocNode {l : ListId} (present : tree.hasList l = true) :
    (tree.allocNode type fields).2.hasList l = true := by
  rw [hasList_iff, list?_allocNode tree type fields present, ← hasList_iff]
  exact present

end Node

theorem list?_createListOf (tree : Tree catalogue) (items : List (Option NodeId)) (l : ListId) :
    (tree.createListOf items).2.list? l =
      if l.index = tree.lists.size then some ⟨tree.nextUid, none, items⟩ else tree.list? l := by
  change ((tree.allocList none).2.setItems ⟨tree.lists.size⟩ items).list? l = _
  obtain ⟨l⟩ := l
  rw [setItems, list?_modifyList, list?_allocList]
  by_cases new : l = tree.lists.size <;> simp [new]

theorem items_createListOf (tree : Tree catalogue) (items : List (Option NodeId)) (l : ListId) :
    (tree.createListOf items).2.items l =
      if l.index = tree.lists.size then items else tree.items l := by
  rw [Tree.items, list?_createListOf]
  split <;> rfl

theorem owner?_createListOf (tree : Tree catalogue) (items : List (Option NodeId)) (l : ListId) :
    (tree.createListOf items).2.owner? l = tree.owner? l := by
  rw [owner?, list?_createListOf]
  split
  · next new =>
    have missing : tree.list? l = none := list?_of_not_hasList (by simp [hasList, new])
    simp [owner?, missing]
  · rfl

theorem hasList_createListOf {tree : Tree catalogue} (items : List (Option NodeId)) {l : ListId}
    (present : tree.hasList l = true) : (tree.createListOf items).2.hasList l = true := by
  simp only [hasList, createListOf, createList, allocList, setItems, modifyList, Array.size_modify,
    Array.size_push, decide_eq_true_eq] at present ⊢
  omega

theorem hasList_createListOf_self (tree : Tree catalogue) (items : List (Option NodeId)) :
    (tree.createListOf items).2.hasList ⟨tree.lists.size⟩ = true :=
  hasList_iff.mpr ⟨_, (list?_createListOf ..).trans (if_pos rfl)⟩

theorem owner?_createListOf_self (tree : Tree catalogue) (items : List (Option NodeId)) :
    (tree.createListOf items).2.owner? ⟨tree.lists.size⟩ = none := by
  rw [owner?, list?_createListOf, if_pos rfl]
  rfl

/-- An empty list is a list of no items. -/
theorem createList_eq (tree : Tree catalogue) : tree.createList.2 = (tree.createListOf []).2 := by
  apply eq_of_entries
  · exact fun _ => rfl
  · intro l
    rw [list?_createListOf]
    exact list?_allocList tree none l
  · rfl

section Copy

variable (tree : Tree catalogue) (x : NodeId) (l : ListId)

theorem node?_copy : tree.copy.node? x =
    (tree.node? x).map fun node => { node with uid := tree.nextUid + x.index } := by
  simp [copy, node?]

theorem list?_copy : tree.copy.list? l =
    (tree.list? l).map fun list =>
      { list with uid := tree.nextUid + tree.nodes.size + l.index } := by
  simp [copy, list?]

@[simp] theorem slots_copy : tree.copy.slots x = tree.slots x := by
  rw [slots, node?_copy, slots]
  cases tree.node? x <;> rfl

@[simp] theorem typeOf_copy : tree.copy.typeOf x = tree.typeOf x := by
  rw [typeOf, node?_copy, typeOf]
  cases tree.node? x <;> rfl

@[simp] theorem fields_copy : tree.copy.fields x = tree.fields x := by
  rw [fields, fields, typeOf_copy]

@[simp] theorem items_copy : tree.copy.items l = tree.items l := by
  rw [items, list?_copy, items]
  cases tree.list? l <;> rfl

@[simp] theorem owner?_copy : tree.copy.owner? l = tree.owner? l := by
  rw [owner?, list?_copy, owner?]
  cases tree.list? l <;> rfl

@[simp] theorem isOwned_copy : tree.copy.isOwned l = tree.isOwned l := by
  rw [isOwned, owner?_copy, isOwned]

@[simp] theorem parent?_copy (handle : Handle) : tree.copy.parent? handle = tree.parent? handle := by
  cases handle with
  | node x =>
    rw [parent?, node?_copy, parent?]
    cases tree.node? x <;> rfl
  | list l => simp [parent?]

@[simp] theorem hasNode_copy : tree.copy.hasNode x = tree.hasNode x := by
  simp [hasNode, copy]

@[simp] theorem hasList_copy : tree.copy.hasList l = tree.hasList l := by
  simp [hasList, copy]

end Copy

end Arbor.Tree
