import Arbor.Proofs.Evolution

/-! # What a change leaves alone

A tree keeps an older one if every node and list of that is still there and as it was. What was made
since then is new. Nothing old holds anything new, and nothing new holds anything old: both ends of a
link are recorded, and the old end has not changed. So a change to something new touches only what is
new, also where it moves nodes around. -/

namespace Arbor.Tree

variable {catalogue : Catalogue}

/-- Every node and list of the old tree is in the other, and as it was. -/
structure Keeps (old now : Tree catalogue) : Prop where
  node : ∀ {id : NodeId} {entry : Node}, old.node? id = some entry → now.node? id = some entry
  list : ∀ {id : ListId} {entry : NodeList}, old.list? id = some entry → now.list? id = some entry

namespace Keeps

variable {old now : Tree catalogue}

theorem refl (tree : Tree catalogue) : tree.Keeps tree := ⟨id, id⟩

section Old

variable (kept : old.Keeps now)
include kept

theorem node?_eq {id : NodeId} (present : old.hasNode id = true) : now.node? id = old.node? id := by
  obtain ⟨entry, found⟩ := hasNode_iff.mp present
  rw [kept.node found, found]

theorem list?_eq {id : ListId} (present : old.hasList id = true) : now.list? id = old.list? id := by
  obtain ⟨entry, found⟩ := hasList_iff.mp present
  rw [kept.list found, found]

theorem hasHandle {handle : Handle} (present : old.hasHandle handle = true) :
    now.hasHandle handle = true := by
  cases handle with
  | node id =>
    obtain ⟨entry, found⟩ := hasNode_iff.mp present
    exact hasNode_iff.mpr ⟨entry, kept.node found⟩
  | list id =>
    obtain ⟨entry, found⟩ := hasList_iff.mp present
    exact hasList_iff.mpr ⟨entry, kept.list found⟩

theorem slots_eq {id : NodeId} (present : old.hasNode id = true) : now.slots id = old.slots id := by
  rw [slots, slots, kept.node?_eq present]

theorem items_eq {id : ListId} (present : old.hasList id = true) : now.items id = old.items id := by
  rw [items, items, kept.list?_eq present]

theorem owner?_eq {id : ListId} (present : old.hasList id = true) :
    now.owner? id = old.owner? id := by
  rw [owner?, owner?, kept.list?_eq present]

theorem parent?_eq {handle : Handle} (present : old.hasHandle handle = true) :
    now.parent? handle = old.parent? handle := by
  cases handle with
  | node id => rw [parent?, parent?, kept.node?_eq present]
  | list id => rw [parent?, parent?, kept.owner?_eq present]

theorem members_eq {handle : Handle} (present : old.hasHandle handle = true) :
    now.members handle = old.members handle := by
  cases handle with
  | node id => rw [members, members, kept.slots_eq present]
  | list id =>
    rw [members, members, isOwned, isOwned, kept.owner?_eq present, kept.items_eq present]

/-- Links do not cross from what is old to what is new. -/
theorem hasHandle_iff_of_held (oldOwned : old.Owned) (nowOwned : now.Owned) {inner outer : Handle}
    (held : now.parent? inner = some outer) :
    old.hasHandle inner = true ↔ old.hasHandle outer = true := by
  constructor
  · intro innerOld
    rw [kept.parent?_eq innerOld] at held
    exact oldOwned.hasHandle_of_parent? held
  · intro outerOld
    cases inner with
    | node c =>
      have member := nowOwned.mem_iff.mpr held
      rw [kept.members_eq outerOld] at member
      exact hasNode_of_parent? (oldOwned.mem_iff.mp member)
    | list l =>
      obtain ⟨⟨n, i⟩, owner, rfl⟩ := Option.map_eq_some_iff.mp held
      have inSlot := nowOwned.owner_iff.mp owner
      rw [kept.slots_eq outerOld] at inSlot
      exact hasList_of_owner? (oldOwned.owner_iff.mpr inSlot)

end Old

section New

variable (kept : old.Keeps now)
include kept

theorem modifyNode {id : NodeId} (new : old.hasNode id = false) (change : Node → Node) :
    old.Keeps (now.modifyNode id change) where
  node := by
    intro x entry found
    have other : x ≠ id := by
      rintro rfl
      rw [hasNode_iff.mpr ⟨entry, found⟩] at new
      contradiction
    rw [node?_modifyNode, if_neg other]
    exact kept.node found
  list found := kept.list found

theorem modifyList {id : ListId} (new : old.hasList id = false) (change : NodeList → NodeList) :
    old.Keeps (now.modifyList id change) where
  node found := kept.node found
  list := by
    intro l entry found
    have other : l ≠ id := by
      rintro rfl
      rw [hasList_iff.mpr ⟨entry, found⟩] at new
      contradiction
    rw [list?_modifyList, if_neg other]
    exact kept.list found

theorem foldl_setParent {ids : List NodeId} (new : ∀ id ∈ ids, old.hasNode id = false)
    (parent : Option Handle) : old.Keeps (ids.foldl (setParent · parent) now) := by
  induction ids generalizing now with
  | nil => exact kept
  | cons id rest ih =>
    apply ih
    · exact kept.modifyNode (new id (List.mem_cons_self ..)) _
    · exact fun x later => new x (List.mem_cons_of_mem _ later)

theorem allocNode (type : TypeId) (fields : List Field) :
    old.Keeps (now.allocNode type fields).2 where
  node := by
    intro id entry found
    have inNow := kept.node found
    have other : id ≠ ⟨now.nodes.size⟩ := by
      rintro rfl
      rw [missing_newNode] at inNow
      contradiction
    rw [node?_allocNode, if_neg other]
    exact inNow
  list := by
    intro id entry found
    have inNow := kept.list found
    rw [list?_allocNode _ _ _ (hasList_iff.mpr ⟨entry, inNow⟩)]
    exact inNow

theorem createList : old.Keeps now.createList.2 where
  node found := kept.node found
  list := by
    intro id entry found
    have inNow := kept.list found
    have bound : id.index < now.lists.size := by
      simpa [hasList] using hasList_iff.mpr ⟨entry, inNow⟩
    rw [Tree.createList, list?_allocList, if_neg (by omega)]
    exact inNow

/-- What is not yet in the tree is new. -/
theorem new_of_missing {handle : Handle} (missing : now.hasHandle handle = false) :
    old.hasHandle handle = false := by
  by_contra present
  rw [kept.hasHandle (by simpa using present)] at missing
  contradiction

section Owned

variable (oldOwned : old.Owned) (nowOwned : now.Owned)
include oldOwned nowOwned

/-- What is held by something new, or holds something new, is new. -/
theorem new_iff_of_held {inner outer : Handle} (held : now.parent? inner = some outer) :
    old.hasHandle inner = false ↔ old.hasHandle outer = false := by
  rw [← Bool.not_eq_true, ← Bool.not_eq_true, kept.hasHandle_iff_of_held oldOwned nowOwned held]

theorem detach {c : NodeId} (new : old.hasNode c = false) : old.Keeps (now.detach c) := by
  rw [Tree.detach]
  split
  · exact kept
  · next holder held =>
    have holderNew := (kept.new_iff_of_held oldOwned nowOwned held).mp new
    exact (kept.modifyNode new _).modifyNode holderNew _
  · next holder held =>
    have holderNew := (kept.new_iff_of_held oldOwned nowOwned held).mp new
    exact (kept.modifyNode new _).modifyList holderNew _

theorem foldl_detach {ids : List NodeId} (new : ∀ id ∈ ids, old.hasNode id = false) :
    old.Keeps (ids.foldl Tree.detach now) := by
  induction ids generalizing now with
  | nil => exact kept
  | cons id rest ih =>
    apply ih
    · exact kept.detach oldOwned nowOwned (new id (List.mem_cons_self ..))
    · exact nowOwned.detach id
    · exact fun x later => new x (List.mem_cons_of_mem _ later)

theorem putScalar {n : NodeId} (new : old.hasNode n = false) (place : Nat) (value : Value) :
    old.Keeps (now.putScalar n place value) := by
  have written : old.Keeps (now.setSlotValue n place value) := kept.modifyNode new _
  rw [Tree.putScalar]
  split
  · next previous isPrevious =>
    obtain ⟨there, inSlot, isNode⟩ := Option.bind_eq_some_iff.mp isPrevious
    obtain rfl : there = .node previous := by
      cases there <;> simp_all [Value.node?]
    have held := nowOwned.parent?_of_slot inSlot
    exact written.modifyNode ((kept.new_iff_of_held oldOwned nowOwned held).mpr new) _
  · exact written

theorem putNode {n c : NodeId} (new : old.hasNode n = false) (childNew : old.hasNode c = false)
    (place : Nat) : old.Keeps (now.putNode n place c) := by
  have detached := kept.detach oldOwned nowOwned childNew
  have put := detached.putScalar oldOwned (nowOwned.detach c) new place (.node c)
  exact put.modifyNode childNew _

theorem setSlot {n : NodeId} (new : old.hasNode n = false) {place : Nat} {value : Value}
    (valueNew : ∀ c, value = .node c → old.hasNode c = false) {after : Tree catalogue}
    (success : now.setSlot n place value = .ok after) : old.Keeps after := by
  rw [Tree.setSlot.eq_def] at success
  split at success
  · contradiction
  split at success
  · next c _ =>
    split at success
    · contradiction
    · cases success
      exact kept.putNode oldOwned nowOwned new (valueNew c rfl) place
  · cases success
    exact kept.putScalar oldOwned nowOwned new place _

theorem replaceOwned {l : ListId} (isOwned : now.isOwned l = true) (new : old.hasList l = false)
    {start stop : Nat} (ordered : start ≤ stop) (inside : start ≤ (now.items l).length)
    {items : List (Option NodeId)} (itemsNew : ∀ c ∈ itemNodes items, old.hasNode c = false) :
    old.Keeps (now.replaceOwned l start stop items) := by
  -- The nodes that leave were held by the list, so they are new.
  have removedNew (c : NodeId)
      (removed : c ∈ itemNodes (((now.items l).take stop).drop start)) : old.hasNode c = false := by
    have isItem := List.mem_of_mem_take (List.mem_of_mem_drop (mem_itemNodes.mp removed))
    have held := nowOwned.mem_item_iff.mp ⟨isOwned, isItem⟩
    exact (kept.new_iff_of_held oldOwned nowOwned held).mpr new
  have cut : old.Keeps (now.replaceOwned l start stop []) := by
    rw [replaceOwned_nil]
    exact (kept.foldl_setParent removedNew none).modifyList new _
  have cutOwned : (now.replaceOwned l start stop []).Owned :=
    nowOwned.edit (.cut l start stop isOwned ordered)
  rw [nowOwned.replaceOwned_eq isOwned ordered inside, insertItems]
  exact ((cut.foldl_detach oldOwned cutOwned itemsNew).foldl_setParent itemsNew _).modifyList new _

theorem splice {l : ListId} (new : old.hasList l = false) {start delete : Nat}
    {items removed : List (Option NodeId)} (itemsNew : ∀ c ∈ itemNodes items, old.hasNode c = false)
    {after : Tree catalogue} (success : now.splice l start delete items = .ok (removed, after)) :
    old.Keeps after := by
  simp only [Tree.splice, min_furtherOn] at success
  split at success
  · next isOwned =>
    split at success
    · contradiction
    · cases success
      apply kept.replaceOwned oldOwned nowOwned isOwned new (by omega) (by omega)
      intro c member
      exact itemsNew c (mem_itemNodes.mpr (mem_of_mem_distinctItems (mem_itemNodes.mp member)))
  · cases success
    exact kept.modifyList new _

theorem push {l : ListId} (new : old.hasList l = false) {value : Value}
    (valueNew : ∀ c, value = .node c → old.hasNode c = false) {length : Nat}
    {after : Tree catalogue} (success : now.push l value = .ok (length, after)) : old.Keeps after := by
  rw [Tree.push] at success
  split at success
  · contradiction
  next item isItem =>
  rw [Tree.append] at success
  split at success
  · contradiction
  next spliced =>
  cases success
  apply kept.splice oldOwned nowOwned new _ spliced
  intro c member
  obtain rfl : some c = item := by simpa [itemNodes] using member
  apply valueNew
  rw [listItem.eq_def] at isItem
  split at isItem <;> simp_all

end Owned

end New

end Keeps

end Arbor.Tree
