import Arbor.Proofs.Refusal

/-! # What operations write

An operation either writes to entries that are there, or adds entries and leaves the others alone; only
copying the whole tree does neither. What is written is one parent link, one slot, the metadata of a node,
or the items of a list, and the only list that gets other items, apart from those that nodes are detached
from, is the one the operation is about. So whatever single writes respect, operations respect. -/

namespace Arbor

/-- The list an operation is to change. Slices and selections only look at theirs. -/
def Operation.changedList? : Operation → Option ListId
  | .removeChild (.list list) _ => some list
  | .replaceChild (.list list) _ _ => some list
  | .splice list _ _ _ => some list
  | .push list _ => some list
  | .append list _ => some list
  | .unshift list _ => some list
  | .pop list => some list
  | .shift list => some list
  | .clear list => some list
  | _ => none

namespace Tree

variable {catalogue : Catalogue}

open Arbor.Action

/-- One write to an entry of the tree. Of the lists, only those in question get nodes or other items. -/
inductive Rewrite (changed : ListId → Prop) : Tree catalogue → Tree catalogue → Prop where
  | parent {tree : Tree catalogue} (parent : Option Handle) (id : NodeId)
      (among : ∀ l, parent = some (.list l) → changed l) :
      Rewrite changed tree (tree.setParent parent id)
  | slot {tree : Tree catalogue} (id : NodeId) (place : Nat) (value : Value) :
      Rewrite changed tree (tree.setSlotValue id place value)
  | metadata {tree : Tree catalogue} (id : NodeId) (metadata : Record Json) :
      Rewrite changed tree (tree.setMetadata id metadata)
  | detach {tree : Tree catalogue} (id : NodeId) : Rewrite changed tree (tree.detach id)
  | items {tree : Tree catalogue} (l : ListId) (items : List (Option NodeId)) (among : changed l) :
      Rewrite changed tree (tree.setItems l items)

theorem Rewrite.release {changed : ListId → Prop} {tree : Tree catalogue} (id : NodeId) :
    Rewrite changed tree (tree.setParent none id) :=
  .parent none id (by simp)

theorem Rewrite.hold {changed : ListId → Prop} {tree : Tree catalogue} (holder id : NodeId) :
    Rewrite changed tree (tree.setParent (some (.node holder)) id) :=
  .parent _ id (by simp)

/-- Writes lead from the first tree to the second. -/
def Rewrites (changed : ListId → Prop) : Tree catalogue → Tree catalogue → Prop :=
  Relation.ReflTransGen (Rewrite changed)

namespace Rewrites

variable {changed : ListId → Prop} {tree after : Tree catalogue}

theorem trans {middle : Tree catalogue} (first : tree.Rewrites changed middle)
    (second : middle.Rewrites changed after) : tree.Rewrites changed after :=
  Relation.ReflTransGen.trans first second

theorem foldl_setParent {parent : Option Handle} (among : ∀ l, parent = some (.list l) → changed l)
    (ids : List NodeId) (tree : Tree catalogue) :
    tree.Rewrites changed (ids.foldl (setParent · parent) tree) := by
  induction ids generalizing tree with
  | nil => exact .refl
  | cons id rest ih => exact .head (.parent parent id among) (ih _)

theorem foldl_release (ids : List NodeId) (tree : Tree catalogue) :
    tree.Rewrites changed (ids.foldl (setParent · none) tree) :=
  foldl_setParent (by simp) ids tree

theorem putScalar (tree : Tree catalogue) (id : NodeId) (place : Nat) (value : Value) :
    tree.Rewrites changed (tree.putScalar id place value) := by
  have written : tree.Rewrites changed (tree.setSlotValue id place value) :=
    .single (.slot id place value)
  rw [Tree.putScalar]
  split
  · exact written.tail (.release _)
  · exact written

theorem setSlot {id : NodeId} {place : Nat} {value : Value}
    (success : tree.setSlot id place value = .ok after) : tree.Rewrites changed after := by
  rw [Tree.setSlot.eq_def] at success
  split at success
  · contradiction
  split at success
  · next child _ =>
    split at success
    · contradiction
    · cases success
      have detached : tree.Rewrites changed (tree.detach child) := .single (.detach child)
      have put := detached.trans (putScalar _ id place (.node child))
      exact put.tail (.hold id child)
  · cases success
    exact putScalar tree id place _

theorem set {id : NodeId} {name : String} {value : Value}
    (success : tree.set id name value = .ok after) : tree.Rewrites changed after := by
  rw [Tree.set] at success
  split at success
  · contradiction
  · exact setSlot success

theorem removeChild (tree : Tree catalogue) (id child : NodeId) :
    tree.Rewrites changed (tree.removeChild (.node id) child).2 := by
  rw [Tree.removeChild]
  split
  · exact .refl
  · next place found =>
    have cleared : tree.Rewrites changed (tree.setSlotValue id place .undefined) :=
      .single (.slot id place .undefined)
    exact cleared.tail (.release child)

theorem replaceChild {id child : NodeId} {value : Value} {held : Bool}
    (success : tree.replaceChild (.node id) child value = .ok (held, after)) :
    tree.Rewrites changed after := by
  rw [Tree.replaceChild] at success
  split at success
  · cases success
    exact .refl
  · obtain ⟨changed, put, same⟩ := map_eq_ok.mp success
    cases same
    exact setSlot put

section List

variable {l : ListId} (among : changed l)
include among

theorem fetchAll (nodes : List NodeId) (tree : Tree catalogue) (place : Nat) :
    tree.Rewrites changed (tree.fetchAll l place nodes).2 := by
  induction nodes generalizing tree place with
  | nil => exact .refl
  | cons c rest ih =>
    have first : tree.Rewrites changed (tree.fetch l place c).2 := by
      rw [Tree.fetch]
      split
      · split
        · exact .tail (.single (.items l _ among)) (.release c)
        · exact .single (.release c)
      · exact .single (.detach c)
    exact first.trans (ih _ _)

theorem replaceOwned (tree : Tree catalogue) (start stop : Nat) (items : List (Option NodeId)) :
    tree.Rewrites changed (tree.replaceOwned l start stop items) := by
  have mayHold : ∀ k, some (Handle.list l) = some (.list k) → changed k := by
    rintro _ ⟨⟩
    exact among
  have cut : tree.Rewrites changed (tree.replaceOwned l start stop []) := by
    rw [replaceOwned_nil]
    exact (foldl_release _ _).tail (.items l _ among)
  rw [replaceOwned_eq_fetchAll]
  apply Relation.ReflTransGen.tail _ (.items l _ among)
  exact cut.trans ((fetchAll among _ _ _).trans (foldl_setParent mayHold _ _))

theorem splice {start delete : Nat} {items removed : List (Option NodeId)}
    (success : tree.splice l start delete items = .ok (removed, after)) :
    tree.Rewrites changed after := by
  simp only [Tree.splice] at success
  split at success
  · split at success
    · contradiction
    · cases success
      exact replaceOwned among tree _ _ _
  · cases success
    exact .single (.items l _ among)

theorem take (tree : Tree catalogue) (place : Nat) : tree.Rewrites changed (tree.take l place).2 := by
  rw [Tree.take]
  split
  · exact .refl
  next item found =>
  have erased : tree.Rewrites changed (tree.setItems l ((tree.items l).eraseIdx place)) :=
    .single (.items l _ among)
  cases item with
  | none => exact erased
  | some c =>
    dsimp only
    split
    · exact erased.tail (.release c)
    · exact erased

theorem clear (tree : Tree catalogue) : tree.Rewrites changed (tree.clear l).2 := by
  have emptied : tree.Rewrites changed (tree.setItems l []) := .single (.items l [] among)
  rw [Tree.clear]
  split
  · exact emptied.trans (foldl_release _ _)
  · exact emptied

end List

end Rewrites

/-- What an operation about a list can make of a tree. -/
inductive ListChange (tree : Tree catalogue) (l : ListId) : Tree catalogue → Prop where
  | unchanged : ListChange tree l tree
  | splice {start delete : Nat} {items removed : List (Option NodeId)} {after : Tree catalogue}
      (spliced : tree.splice l start delete items = .ok (removed, after)) : ListChange tree l after
  | take (place : Nat) : ListChange tree l (tree.take l place).2
  | clear : ListChange tree l (tree.clear l).2

namespace ListChange

variable {tree after : Tree catalogue} {l : ListId}

theorem append {items : List (Option NodeId)} {length : Nat}
    (success : tree.append l items = .ok (length, after)) : tree.ListChange l after := by
  rw [Tree.append] at success
  split at success
  · contradiction
  · next spliced =>
    cases success
    exact .splice spliced

theorem push {value : Value} {length : Nat} (success : tree.push l value = .ok (length, after)) :
    tree.ListChange l after := by
  rw [Tree.push] at success
  split at success
  · contradiction
  · exact append success

theorem unshift {value : Value} {length : Nat} (success : tree.unshift l value = .ok (length, after)) :
    tree.ListChange l after := by
  rw [Tree.unshift] at success
  split at success
  · contradiction
  split at success
  · contradiction
  · next spliced =>
    cases success
    exact .splice spliced

theorem removeChild (tree : Tree catalogue) (l : ListId) (child : NodeId) :
    tree.ListChange l (tree.removeChild (.list l) child).2 := by
  rw [Tree.removeChild]
  split
  · exact .unchanged
  split
  · next spliced => exact .splice spliced
  · exact .unchanged

theorem replaceChild {child : NodeId} {value : Value} {held : Bool}
    (success : tree.replaceChild (.list l) child value = .ok (held, after)) :
    tree.ListChange l after := by
  rw [Tree.replaceChild] at success
  split at success
  · cases success
    exact .unchanged
  split at success
  · contradiction
  · obtain ⟨result, spliced, same⟩ := map_eq_ok.mp success
    cases same
    exact .splice spliced

theorem perform (tree : Tree catalogue) {operation : Operation}
    (isList : operation.changedList? = some l) : tree.ListChange l (operation.perform tree).2 := by
  cases operation with
  | removeChild parent child =>
    cases parent <;> cases isList
    exact removeChild tree l child
  | replaceChild parent child value =>
    cases parent <;> cases isList
    rw [Operation.perform, Operation.outcome, exchangeChild_eq_whole]
    exact whole_snd .unchanged fun _ _ => replaceChild
  | splice list start delete items =>
    cases isList
    rw [Operation.perform, Operation.outcome, spliceItems_eq_whole]
    exact whole_snd .unchanged fun _ _ => .splice
  | push list value =>
    cases isList
    rw [Operation.perform, Operation.outcome, pushValue_eq_whole]
    exact whole_snd .unchanged fun _ _ => push
  | append list items =>
    cases isList
    rw [Operation.perform, Operation.outcome, appendItems_eq_whole]
    exact whole_snd .unchanged fun _ _ => append
  | unshift list value =>
    cases isList
    rw [Operation.perform, Operation.outcome, unshiftValue_eq_whole]
    exact whole_snd .unchanged fun _ _ => unshift
  | pop list =>
    cases isList
    exact .take _
  | shift list =>
    cases isList
    exact .take 0
  | clear list =>
    cases isList
    exact .clear
  | _ => contradiction

theorem rewrites (change : tree.ListChange l after) {changed : ListId → Prop} (among : changed l) :
    tree.Rewrites changed after := by
  cases change with
  | unchanged => exact .refl
  | splice spliced => exact Rewrites.splice among spliced
  | take place => exact Rewrites.take among tree place
  | clear => exact Rewrites.clear among tree

end ListChange

theorem keeps_createListOf (tree : Tree catalogue) (items : List (Option NodeId)) :
    tree.Keeps (tree.createListOf items).2 := by
  have new : tree.hasList tree.createList.1 = false := by
    simp [createList, allocList, hasList]
  exact (Keeps.refl tree).createList.modifyList new _

/-- An operation other than copying writes to entries of the tree, and changes no list but its own; or it
adds entries and keeps the others. -/
theorem WellFormed.rewrites_or_keeps {tree : Tree catalogue} (formed : tree.WellFormed)
    {operation : Operation} (noCopy : operation ≠ .copy) {changed : ListId → Prop}
    (among : ∀ l, operation.changedList? = some l → changed l) :
    tree.Rewrites changed (operation.perform tree).2 ∨ tree.Keeps (operation.perform tree).2 := by
  cases isList : operation.changedList? with
  | some l => exact .inl ((ListChange.perform tree isList).rewrites (among l isList))
  | none =>
  cases operation with
  | createNode type => exact .inr (extends_makeNode (.refl tree) type).kept
  | createNodeOf type => exact .inr (extends_makeNodeOf (.refl tree) type).kept
  | createList => exact .inr (Keeps.refl tree).createList
  | slice list start stop => exact .inr (keeps_createListOf ..)
  | filter list keep => exact .inr (keeps_createListOf ..)
  | build | parse | cloneSubtree => exact .inr (formed.keeps_perform rfl)
  | set node field value =>
    left
    rw [Operation.perform, Operation.outcome, assign_eq_whole]
    refine whole_snd .refl fun _ after success => ?_
    obtain ⟨changed, put, same⟩ := map_eq_ok.mp success
    cases same
    exact Rewrites.set put
  | detach node => exact .inl (.single (.detach node))
  | removeChild parent child =>
    cases parent with
    | node id => exact .inl (Rewrites.removeChild tree id child)
    | list l => contradiction
  | replaceChild parent child value =>
    cases parent with
    | node id =>
      left
      rw [Operation.perform, Operation.outcome, exchangeChild_eq_whole]
      exact whole_snd .refl fun _ _ => Rewrites.replaceChild
    | list l => contradiction
  | setMetadata node metadata => exact .inl (.single (.metadata node metadata))
  | copy => contradiction
  | splice | push | append | unshift | pop | shift | clear => contradiction

end Tree
end Arbor
