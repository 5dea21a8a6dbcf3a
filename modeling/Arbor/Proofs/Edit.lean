import Arbor.Proofs.Allocation
import Mathlib.Logic.Relation

/-! # Elementary edits

Whatever an operation does to a tree, it does in elementary edits: something is added, a node leaves the
place that holds it, a node that is held nowhere gets a place, or something that holds no node is
rewritten. Each edit says under which conditions it happens. What every edit keeps is kept by every
operation, so the invariants of trees are proved here, edit by edit, and never for an operation. -/

namespace Arbor.Tree

variable {catalogue : Catalogue}

def HeldBy (tree : Tree catalogue) (inner outer : Handle) : Prop := tree.parent? inner = some outer

/-- The first is the second, or lies somewhere below it. -/
def Within (tree : Tree catalogue) : Handle → Handle → Prop := Relation.ReflTransGen tree.HeldBy

/-- The first lies somewhere below the second. -/
def Below (tree : Tree catalogue) : Handle → Handle → Prop := Relation.TransGen tree.HeldBy

theorem within_iff {tree : Tree catalogue} {inner outer : Handle} :
    tree.Within inner outer ↔ outer = inner ∨ tree.Below inner outer :=
  Relation.reflTransGen_iff_eq_or_transGen

/-- Put items between others of a list that belongs to a field. Their nodes are held nowhere. -/
def insertItems (tree : Tree catalogue) (l : ListId) (before items after : List (Option NodeId)) :
    Tree catalogue :=
  ((itemNodes items).foldl (setParent · (some (.list l))) tree).setItems l
    (before ++ items ++ after)

/-- One elementary change of a tree. -/
inductive Edit : Tree catalogue → Tree catalogue → Prop where
  /-- A new node of a concrete type. -/
  | node {tree : Tree catalogue} (type : TypeId) (declared : NodeType)
      (found : catalogue.type? type = some declared) (concrete : declared.isAbstract = false) :
      Edit tree (tree.allocNode type declared.fields).2
  /-- A new free list. -/
  | list {tree : Tree catalogue} (items : List (Option NodeId))
      (present : tree.hasItems items = true) : Edit tree (tree.createListOf items).2
  | metadata {tree : Tree catalogue} (id : NodeId) (metadata : Record Json) :
      Edit tree (tree.setMetadata id metadata)
  /-- All identities are replaced. -/
  | copy {tree : Tree catalogue} : Edit tree tree.copy
  /-- A node leaves the place that holds it, if there is one. -/
  | detach {tree : Tree catalogue} (id : NodeId) : Edit tree (tree.detach id)
  /-- A slot that holds a scalar gets another. -/
  | write {tree : Tree catalogue} (id : NodeId) (place : Nat) (field : Field) (old new : Scalar)
      (held : (tree.slots id)[place]? = some (.scalar old))
      (declared : (tree.fields id)[place]? = some field)
      (admitted : tree.admits field (.scalar new) = true) :
      Edit tree (tree.setSlotValue id place (.scalar new))
  /-- A slot that holds a scalar gets a node that is held nowhere. -/
  | attach {tree : Tree catalogue} (id child : NodeId) (place : Nat) (field : Field) (old : Scalar)
      (held : (tree.slots id)[place]? = some (.scalar old))
      (declared : (tree.fields id)[place]? = some field)
      (admitted : tree.admits field (.node child) = true)
      (present : tree.hasNode child = true) (unheld : tree.parent? (.node child) = none)
      (outside : ¬ tree.Within (.node id) (.node child)) :
      Edit tree ((tree.setSlotValue id place (.node child)).setParent (some (.node id)) child)
  /-- Items leave a list that belongs to a field. -/
  | cut {tree : Tree catalogue} (l : ListId) (start stop : Nat) (owned : tree.isOwned l = true)
      (ordered : start ≤ stop) : Edit tree (tree.replaceOwned l start stop [])
  /-- A list that belongs to a field gets items whose nodes are held nowhere. -/
  | insert {tree : Tree catalogue} (l : ListId) (field : Field)
      (before items after : List (Option NodeId)) (owned : tree.isOwned l = true)
      (held : tree.items l = before ++ after) (declared : tree.ownerField? l = some field)
      (admitted : ∀ item ∈ items, tree.admitsItem field item = true)
      (present : tree.hasItems items = true) (distinct : (itemNodes items).Nodup)
      (unheld : ∀ child ∈ itemNodes items, tree.parent? (.node child) = none)
      (outside : ∀ child ∈ itemNodes items, ¬ tree.Within (.list l) (.node child)) :
      Edit tree (tree.insertItems l before items after)
  /-- A free list gets other items. -/
  | refill {tree : Tree catalogue} (l : ListId) (items : List (Option NodeId))
      (free : tree.isOwned l = false) (present : tree.hasItems items = true) :
      Edit tree (tree.setItems l items)

/-- Elementary edits lead from the first tree to the second. -/
def Evolves : Tree catalogue → Tree catalogue → Prop := Relation.ReflTransGen Edit

/-- What one change of a fold keeps, the fold keeps. -/
theorem foldl_keeps {α β : Type} (observe : Tree catalogue → β)
    (change : Tree catalogue → α → Tree catalogue)
    (keeps : ∀ tree a, observe (change tree a) = observe tree) (as : List α)
    (tree : Tree catalogue) : observe (as.foldl change tree) = observe tree := by
  induction as generalizing tree with
  | nil => rfl
  | cons a rest ih => rw [List.foldl_cons, ih, keeps]

section Folds

variable (tree : Tree catalogue) (ids : List NodeId) (parent : Option Handle) (x : NodeId) (l : ListId)

theorem parent?_foldl_setParent (present : ∀ id ∈ ids, tree.hasNode id = true) :
    (ids.foldl (setParent · parent) tree).parent? (.node x) =
      if x ∈ ids then parent else tree.parent? (.node x) := by
  induction ids generalizing tree with
  | nil => simp
  | cons id rest ih =>
    have restPresent : ∀ y ∈ rest, (tree.setParent parent id).hasNode y = true := by
      intro y member
      rw [hasNode_setParent]
      exact present y (List.mem_cons_of_mem _ member)
    rw [List.foldl_cons, ih _ restPresent,
      parent?_setParent_of_hasNode _ _ _ _ (present id (List.mem_cons_self ..))]
    by_cases same : x = id <;> simp [same]

@[simp] theorem slots_foldl_setParent :
    (ids.foldl (setParent · parent) tree).slots x = tree.slots x :=
  foldl_keeps (·.slots x) _ (fun t id => slots_setParent t id x parent) ids tree

@[simp] theorem typeOf_foldl_setParent :
    (ids.foldl (setParent · parent) tree).typeOf x = tree.typeOf x :=
  foldl_keeps (·.typeOf x) _ (fun t id => typeOf_setParent t id x parent) ids tree

@[simp] theorem fields_foldl_setParent :
    (ids.foldl (setParent · parent) tree).fields x = tree.fields x :=
  foldl_keeps (·.fields x) _ (fun t id => fields_setParent t id x parent) ids tree

@[simp] theorem hasNode_foldl_setParent :
    (ids.foldl (setParent · parent) tree).hasNode x = tree.hasNode x :=
  foldl_keeps (·.hasNode x) _ (fun t id => hasNode_setParent t id x parent) ids tree

@[simp] theorem items_foldl_setParent :
    (ids.foldl (setParent · parent) tree).items l = tree.items l :=
  foldl_keeps (·.items l) (setParent · parent) (fun _ _ => rfl) ids tree

@[simp] theorem owner?_foldl_setParent :
    (ids.foldl (setParent · parent) tree).owner? l = tree.owner? l :=
  foldl_keeps (·.owner? l) (setParent · parent) (fun _ _ => rfl) ids tree

@[simp] theorem isOwned_foldl_setParent :
    (ids.foldl (setParent · parent) tree).isOwned l = tree.isOwned l :=
  foldl_keeps (·.isOwned l) (setParent · parent) (fun _ _ => rfl) ids tree

@[simp] theorem hasList_foldl_setParent :
    (ids.foldl (setParent · parent) tree).hasList l = tree.hasList l :=
  foldl_keeps (·.hasList l) (setParent · parent) (fun _ _ => rfl) ids tree

@[simp] theorem uid_foldl_setParent (handle : Handle) :
    (ids.foldl (setParent · parent) tree).uid handle = tree.uid handle :=
  foldl_keeps (·.uid handle) _ (fun t id => uid_setParent t id parent handle) ids tree

@[simp] theorem nextUid_foldl_setParent :
    (ids.foldl (setParent · parent) tree).nextUid = tree.nextUid :=
  foldl_keeps (·.nextUid) (setParent · parent) (fun _ _ => rfl) ids tree

end Folds

section Items

variable (tree : Tree catalogue) (l : ListId)

theorem setItems_self : tree.setItems l (tree.items l) = tree := by
  apply eq_of_entries
  · exact fun _ => rfl
  · intro k
    rw [setItems, list?_modifyList]
    split
    · next same =>
      subst same
      rw [items]
      cases tree.list? k <;> rfl
    · rfl
  · rfl

private theorem insertAt_nil (place : Nat) : tree.insertAt l place [] = tree := by
  rw [insertAt, List.append_nil, List.take_append_drop, setItems_self]

theorem foldl_setParent_setItems (ids : List NodeId) (parent : Option Handle)
    (items : List (Option NodeId)) :
    ids.foldl (setParent · parent) (tree.setItems l items) =
      (ids.foldl (setParent · parent) tree).setItems l items := by
  induction ids generalizing tree with
  | nil => rfl
  | cons id rest ih => exact ih (tree.setParent parent id)

theorem replaceOwned_nil (start stop : Nat) :
    tree.replaceOwned l start stop [] =
      ((itemNodes (((tree.items l).take stop).drop start)).foldl (setParent · none) tree).setItems l
        ((tree.items l).take start ++ (tree.items l).drop stop) := by
  rw [← foldl_setParent_setItems]
  exact insertAt_nil _ l start

end Items

theorem Edit.hasNode {tree after : Tree catalogue} (edit : Edit tree after) {x : NodeId}
    (present : tree.hasNode x = true) : after.hasNode x = true := by
  cases edit with
  | node => exact hasNode_allocNode _ _ _ present
  | list | refill => exact present
  | metadata | write => exact (hasNode_modifyNode _ _ _ _).trans present
  | copy => exact (hasNode_copy _ _).trans present
  | detach => exact (hasNode_detach _ _ _).trans present
  | attach => exact ((hasNode_setParent _ _ _ _).trans (hasNode_setSlotValue _ _ _ _ _)).trans present
  | cut =>
    rw [replaceOwned_nil]
    exact (hasNode_foldl_setParent _ _ _ _).trans present
  | insert => exact (hasNode_foldl_setParent _ _ _ _).trans present

theorem Edit.hasList {tree after : Tree catalogue} (edit : Edit tree after) {l : ListId}
    (present : tree.hasList l = true) : after.hasList l = true := by
  cases edit with
  | node => exact hasList_allocNode _ _ _ present
  | list items => exact hasList_createListOf items present
  | metadata | write | attach => exact present
  | copy => exact (hasList_copy _ _).trans present
  | detach => exact (hasList_detach _ _ _).trans present
  | cut =>
    rw [replaceOwned_nil]
    exact ((hasList_modifyList _ _ _ _).trans (hasList_foldl_setParent _ _ _ _)).trans present
  | insert =>
    exact ((hasList_modifyList _ _ _ _).trans (hasList_foldl_setParent _ _ _ _)).trans present
  | refill => exact (hasList_modifyList _ _ _ _).trans present

theorem Evolves.hasNode {tree after : Tree catalogue} (run : tree.Evolves after) {x : NodeId}
    (present : tree.hasNode x = true) : after.hasNode x = true := by
  induction run with
  | refl => exact present
  | tail _ edit ih => exact edit.hasNode ih

theorem Evolves.hasList {tree after : Tree catalogue} (run : tree.Evolves after) {l : ListId}
    (present : tree.hasList l = true) : after.hasList l = true := by
  induction run with
  | refl => exact present
  | tail _ edit ih => exact edit.hasList ih

theorem Evolves.hasHandle {tree after : Tree catalogue} (run : tree.Evolves after) {handle : Handle}
    (present : tree.hasHandle handle = true) : after.hasHandle handle = true := by
  cases handle with
  | node id => exact run.hasNode present
  | list id => exact run.hasList present

end Arbor.Tree
