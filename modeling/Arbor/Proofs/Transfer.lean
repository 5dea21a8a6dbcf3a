import Arbor.Proofs.Attach
import Arbor.Proofs.SingleOwner

/-! # Nodes that change hands

An operation that moves nodes takes them out of the places that hold them, releases those they displace,
and gives the moved ones to a new holder. `transfer` says what this makes of a tree, entry by entry and
whatever the places have to do with each other: a node may come from the list it goes to, from the slot
it fills, or from below what it displaces. The operations do it step by step; each step only rearranges
what holds what, so the trees are compared by their parent links, slots and items alone. -/

namespace Arbor.Tree

variable {catalogue : Catalogue}

/-- Apart from what holds what, the second tree reads as the first. -/
structure Rearranges (tree after : Tree catalogue) : Prop where
  hasNode : ∀ n, after.hasNode n = tree.hasNode n
  hasList : ∀ l, after.hasList l = tree.hasList l
  uid : ∀ handle, after.uid handle = tree.uid handle
  typeOf : ∀ n, after.typeOf n = tree.typeOf n
  metadata : ∀ n, after.metadata n = tree.metadata n
  owner : ∀ l, after.owner? l = tree.owner? l
  nextUid : after.nextUid = tree.nextUid

namespace Rearranges

variable {tree middle after : Tree catalogue}

theorem refl (tree : Tree catalogue) : tree.Rearranges tree :=
  ⟨fun _ => rfl, fun _ => rfl, fun _ => rfl, fun _ => rfl, fun _ => rfl, fun _ => rfl, rfl⟩

theorem symm (same : tree.Rearranges after) : after.Rearranges tree where
  hasNode n := (same.hasNode n).symm
  hasList l := (same.hasList l).symm
  uid handle := (same.uid handle).symm
  typeOf n := (same.typeOf n).symm
  metadata n := (same.metadata n).symm
  owner l := (same.owner l).symm
  nextUid := same.nextUid.symm

theorem trans (first : tree.Rearranges middle) (second : middle.Rearranges after) :
    tree.Rearranges after where
  hasNode n := (second.hasNode n).trans (first.hasNode n)
  hasList l := (second.hasList l).trans (first.hasList l)
  uid handle := (second.uid handle).trans (first.uid handle)
  typeOf n := (second.typeOf n).trans (first.typeOf n)
  metadata n := (second.metadata n).trans (first.metadata n)
  owner l := (second.owner l).trans (first.owner l)
  nextUid := second.nextUid.trans first.nextUid

theorem fields (same : tree.Rearranges after) (n : NodeId) : after.fields n = tree.fields n := by
  rw [Tree.fields, Tree.fields, same.typeOf]

theorem isOwned (same : tree.Rearranges after) (l : ListId) : after.isOwned l = tree.isOwned l := by
  rw [Tree.isOwned, Tree.isOwned, same.owner]

theorem modifyNode (tree : Tree catalogue) (id : NodeId) {change : Node → Node}
    (uid : ∀ node, (change node).uid = node.uid) (type : ∀ node, (change node).type = node.type)
    (metadata : ∀ node, (change node).metadata = node.metadata) :
    tree.Rearranges (tree.modifyNode id change) where
  hasNode n := hasNode_modifyNode tree id n change
  hasList _ := rfl
  uid := uid_modifyNode tree id uid
  typeOf n := typeOf_modifyNode tree id n type
  metadata n := metadata_modifyNode tree id n metadata
  owner _ := rfl
  nextUid := rfl

theorem modifyList (tree : Tree catalogue) (id : ListId) {change : NodeList → NodeList}
    (uid : ∀ list, (change list).uid = list.uid) (owner : ∀ list, (change list).owner = list.owner) :
    tree.Rearranges (tree.modifyList id change) where
  hasNode _ := rfl
  hasList l := hasList_modifyList tree id l change
  uid := uid_modifyList tree id uid
  typeOf _ := rfl
  metadata _ := rfl
  owner l := owner?_modifyList tree id l owner
  nextUid := rfl

theorem setParent (tree : Tree catalogue) (parent : Option Handle) (id : NodeId) :
    tree.Rearranges (tree.setParent parent id) :=
  modifyNode tree id (fun _ => rfl) (fun _ => rfl) fun _ => rfl

theorem setSlotValue (tree : Tree catalogue) (id : NodeId) (place : Nat) (value : Value) :
    tree.Rearranges (tree.setSlotValue id place value) :=
  modifyNode tree id (fun _ => rfl) (fun _ => rfl) fun _ => rfl

theorem setItems (tree : Tree catalogue) (l : ListId) (items : List (Option NodeId)) :
    tree.Rearranges (tree.setItems l items) :=
  modifyList tree l (fun _ => rfl) fun _ => rfl

theorem detach (tree : Tree catalogue) (id : NodeId) : tree.Rearranges (tree.detach id) := by
  rw [Tree.detach]
  split
  · exact refl tree
  · exact (setParent tree none id).trans (modifyNode _ _ (fun _ => rfl) (fun _ => rfl) fun _ => rfl)
  · exact (setParent tree none id).trans (modifyList _ _ (fun _ => rfl) fun _ => rfl)

theorem foldl {α : Type} {change : Tree catalogue → α → Tree catalogue}
    (each : ∀ (tree : Tree catalogue) a, tree.Rearranges (change tree a)) (as : List α) (tree : Tree catalogue) :
    tree.Rearranges (as.foldl change tree) := by
  induction as generalizing tree with
  | nil => exact refl tree
  | cons a rest ih => exact (each tree a).trans (ih (change tree a))

theorem foldl_setParent (ids : List NodeId) (parent : Option Handle) (tree : Tree catalogue) :
    tree.Rearranges (ids.foldl (Tree.setParent · parent) tree) :=
  foldl (fun tree id => setParent tree parent id) ids tree

theorem foldl_detach (ids : List NodeId) (tree : Tree catalogue) :
    tree.Rearranges (ids.foldl Tree.detach tree) :=
  foldl detach ids tree

end Rearranges

private theorem node?_eq_readings (tree : Tree catalogue) (n : NodeId) : tree.node? n =
    if tree.hasNode n = true then some ⟨tree.uid (.node n), tree.typeOf n, tree.parent? (.node n),
      tree.slots n, tree.metadata n⟩ else none := by
  split
  · next present =>
    obtain ⟨node, found⟩ := hasNode_iff.mp present
    simp [uid, typeOf, parent?, slots, metadata, found]
  · next absent => simpa [hasNode, node?] using absent

private theorem list?_eq_readings (tree : Tree catalogue) (l : ListId) : tree.list? l =
    if tree.hasList l = true then some ⟨tree.uid (.list l), tree.owner? l, tree.items l⟩
    else none := by
  split
  · next present =>
    obtain ⟨list, found⟩ := hasList_iff.mp present
    simp [uid, owner?, items, found]
  · next absent => simpa [hasList, list?] using absent

/-- Once the parent links, slots and items of a rearranged tree are given, the tree is. -/
theorem Rearranges.eq {tree after : Tree catalogue} (same : tree.Rearranges after)
    (parent : ∀ n, after.parent? (.node n) = tree.parent? (.node n))
    (slots : ∀ n, after.slots n = tree.slots n) (items : ∀ l, after.items l = tree.items l) :
    after = tree := by
  refine eq_of_entries (fun n => ?_) (fun l => ?_) same.nextUid
  · rw [node?_eq_readings, node?_eq_readings tree, same.hasNode, same.uid, same.typeOf, parent, slots,
      same.metadata]
  · rw [list?_eq_readings, list?_eq_readings tree, same.hasList, same.uid, same.owner, items]

section Vacated

/-- The slots, with those unset that hold one of the nodes. -/
def vacate (nodes : List NodeId) (slots : List Value) : List Value :=
  slots.map fun value => if value.node?.any nodes.contains then .undefined else value

@[simp] theorem vacate_nil (slots : List Value) : vacate [] slots = slots := by
  rw [vacate]
  convert List.map_id slots using 2
  funext value
  cases value.node? <;> rfl

private theorem vacate_cons (c : NodeId) (rest : List NodeId) (slots : List Value) :
    vacate (c :: rest) slots = vacate rest (vacate [c] slots) := by
  rw [vacate, vacate, vacate, List.map_map]
  refine List.map_congr_left fun value _ => ?_
  cases value with
  | scalar s => rfl
  | list l => rfl
  | node x => by_cases same : x = c <;> simp [same, Value.node?]

theorem vacate_of_not_mem {c : NodeId} {slots : List Value} (absent : .node c ∉ slots) :
    vacate [c] slots = slots := by
  rw [vacate]
  nth_rewrite 2 [← List.map_id slots]
  refine List.map_congr_left fun value member => ?_
  cases value with
  | scalar s => rfl
  | list l => rfl
  | node x =>
    have other : x ≠ c := by
      rintro rfl
      exact absent member
    simp [Value.node?, other]

theorem getElem?_vacate_of_mem {nodes : List NodeId} {slots : List Value} {n : Nat} {c : NodeId}
    (held : slots[n]? = some (.node c)) (member : c ∈ nodes) :
    (vacate nodes slots)[n]? = some .undefined := by
  simp [vacate, held, Value.node?, member]

theorem getElem?_vacate_eq_node_iff {nodes : List NodeId} {slots : List Value} {n : Nat}
    {x : NodeId} : (vacate nodes slots)[n]? = some (.node x) ↔
      slots[n]? = some (.node x) ∧ x ∉ nodes := by
  rw [vacate, List.getElem?_map]
  cases slots[n]? with
  | none => simp
  | some value =>
    cases value with
    | scalar s => simp [Value.node?]
    | list l => simp [Value.node?]
    | node y =>
      by_cases member : y ∈ nodes
      · have elsewhere : y = x → x ∈ nodes := by
          rintro rfl
          exact member
        simpa [Value.node?, member] using elsewhere
      · have stays : y = x → x ∉ nodes := by
          rintro rfl
          exact member
        simpa [Value.node?, member] using stays

theorem releaseSlot_eq_vacate {c : NodeId} {slots : List Value}
    (distinct : (slots.filterMap Value.node?).Nodup) : releaseSlot c slots = vacate [c] slots := by
  induction slots with
  | nil => rfl
  | cons value rest ih =>
    rw [releaseSlot]
    split
    · next isNode =>
      rw [List.filterMap_cons_some isNode] at distinct
      have absent : .node c ∉ rest := fun member =>
        (List.nodup_cons.mp distinct).1 (List.mem_filterMap.mpr ⟨_, member, rfl⟩)
      nth_rewrite 1 [← vacate_of_not_mem absent]
      simp [vacate, isNode]
    · next other =>
      have restDistinct : (rest.filterMap Value.node?).Nodup :=
        distinct.sublist ((List.sublist_cons_self value rest).filterMap _)
      have kept : value.node?.any [c].contains = false := by
        cases isNode : value.node? with
        | none => rfl
        | some x => simpa using fun same => other (isNode.trans (congrArg some same))
      rw [ih restDistinct]
      simp only [vacate, List.map_cons, kept]
      rfl

theorem Owned.slots_detach_eq_vacate {tree : Tree catalogue} (owned : tree.Owned) (c n : NodeId) :
    (tree.detach c).slots n = vacate [c] (tree.slots n) := by
  rw [slots_detach]
  split
  · exact releaseSlot_eq_vacate (owned.nodup (.node n))
  · next elsewhere => exact (vacate_of_not_mem fun member => elsewhere (owned.mem_slot_iff.mp member)).symm

theorem Owned.slots_foldl_detach {tree : Tree catalogue} (owned : tree.Owned) (ids : List NodeId)
    (n : NodeId) : (ids.foldl Tree.detach tree).slots n = vacate ids (tree.slots n) := by
  induction ids generalizing tree with
  | nil => simp
  | cons c rest ih =>
    rw [List.foldl_cons, ih (owned.detach c), owned.slots_detach_eq_vacate, ← vacate_cons]

/-- A free list holds its nodes without being their parent, so they stay in it. -/
theorem Owned.items_foldl_detach_of_free {tree : Tree catalogue} (owned : tree.Owned) {l : ListId}
    (isFree : tree.isOwned l = false) (ids : List NodeId) :
    (ids.foldl Tree.detach tree).items l = tree.items l := by
  induction ids generalizing tree with
  | nil => rfl
  | cons c rest ih =>
    have notHeld : tree.parent? (.node c) ≠ some (.list l) := by
      intro held
      have isOwned := (owned.mem_item_iff.mpr held).1
      rw [isFree] at isOwned
      contradiction
    rw [List.foldl_cons, ih (owned.detach c) (by rwa [isOwned_detach]), items_detach, if_neg notHeld]

theorem parent?_foldl_detach_of_not_mem {tree : Tree catalogue} {ids : List NodeId} {x : NodeId}
    (absent : x ∉ ids) : (ids.foldl detach tree).parent? (.node x) = tree.parent? (.node x) := by
  induction ids generalizing tree with
  | nil => rfl
  | cons c rest ih =>
    rw [List.mem_cons, not_or] at absent
    rw [List.foldl_cons, ih absent.2, parent?_detach, if_neg absent.1]

end Vacated

theorem mem_node?_toList {value : Value} {x : NodeId} :
    x ∈ value.node?.toList ↔ value = .node x := by
  cases value with
  | node c => simp [Value.node?, eq_comm]
  | scalar s => simp [Value.node?]
  | list l => simp [Value.node?]

def displaced (tree : Tree catalogue) (n : NodeId) (place : Nat) : List NodeId :=
  ((tree.slots n)[place]?.bind (·.node?)).toList

theorem mem_displaced {tree : Tree catalogue} {n q : NodeId} {place : Nat} :
    q ∈ tree.displaced n place ↔ (tree.slots n)[place]? = some (.node q) := by
  rw [displaced]
  cases (tree.slots n)[place]? with
  | none => simp
  | some value => rw [Option.bind_some, mem_node?_toList, Option.some.injEq]

/-- The tree with the moved nodes taken out of the places that hold them and given to the target, and
with the freed ones, unless they move as well, held by nothing. -/
def transfer (tree : Tree catalogue) (freed moved : List NodeId) (target : Handle) :
    Tree catalogue :=
  { tree with
    nodes := tree.nodes.mapIdx fun n node =>
      { node with
        parent := if ⟨n⟩ ∈ moved then some target else if ⟨n⟩ ∈ freed then none else node.parent
        slots := vacate moved node.slots }
    lists := tree.lists.map fun list =>
      { list with items := if list.owner.isSome then without moved list.items else list.items } }

section Readings

variable (tree : Tree catalogue) (freed moved : List NodeId) (target : Handle)

private theorem node?_transfer (n : NodeId) : (tree.transfer freed moved target).node? n =
    (tree.node? n).map fun node =>
      { node with
        parent := if n ∈ moved then some target else if n ∈ freed then none else node.parent
        slots := vacate moved node.slots } := by
  simp [transfer, node?]

private theorem list?_transfer (l : ListId) : (tree.transfer freed moved target).list? l =
    (tree.list? l).map fun list =>
      { list with
        items := if list.owner.isSome then without moved list.items else list.items } := by
  simp [transfer, list?]

theorem Rearranges.transfer : tree.Rearranges (tree.transfer freed moved target) where
  hasNode n := by simp [Tree.transfer, Tree.hasNode]
  hasList l := by simp [Tree.transfer, Tree.hasList]
  uid handle := by
    cases handle with
    | node n => simp [Tree.uid, node?_transfer, Function.comp_def]
    | list l => simp [Tree.uid, list?_transfer, Function.comp_def]
  typeOf n := by simp [Tree.typeOf, node?_transfer, Function.comp_def]
  metadata n := by simp [Tree.metadata, node?_transfer, Function.comp_def]
  owner l := by
    rw [Tree.owner?, Tree.owner?, list?_transfer]
    cases tree.list? l <;> rfl
  nextUid := rfl

theorem parent?_transfer (present : ∀ c ∈ moved, tree.hasNode c = true) (n : NodeId) :
    (tree.transfer freed moved target).parent? (.node n) =
      if n ∈ moved then some target else if n ∈ freed then none else tree.parent? (.node n) := by
  simp only [parent?, node?_transfer, Option.bind_map, Function.comp_def]
  split
  · next isMoved =>
    obtain ⟨node, found⟩ := hasNode_iff.mp (present n isMoved)
    simp [found]
  · split
    · cases tree.node? n <;> rfl
    · rfl

theorem slots_transfer (n : NodeId) :
    (tree.transfer freed moved target).slots n = vacate moved (tree.slots n) := by
  rw [slots, slots, node?_transfer]
  cases tree.node? n <;> rfl

theorem items_transfer (l : ListId) : (tree.transfer freed moved target).items l =
    if tree.isOwned l = true then without moved (tree.items l) else tree.items l := by
  rw [items, items, isOwned, owner?, list?_transfer]
  cases tree.list? l with
  | none => simp [without]
  | some list => rfl

end Readings

/-- Two blocks in the list of another, which has a fourth in its field. -/
def fullBlock : Tree blocks :=
  (empty blocks 1).run [.createNode "Block", .createNode "Block", .createNode "Block",
    .createNode "Block", .append ⟨0⟩ [some ⟨1⟩, some ⟨2⟩], .set ⟨0⟩ "next" (.node ⟨3⟩)]

end Arbor.Tree
