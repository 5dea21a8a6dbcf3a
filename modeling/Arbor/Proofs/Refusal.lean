import Arbor.Proofs.SingleOwner

/-! # Refused operations and builds

An operation that is refused leaves the tree as it was. Building is the exception, as it leaves behind
what it made before the fault; but whether it comes to an end or not, it never touches what was there. -/

namespace Arbor

def Operation.builds : Operation → Bool
  | .build _ | .parse _ | .cloneSubtree _ => true
  | _ => false

namespace Tree

variable {catalogue : Catalogue}

open Arbor.Action

private theorem outcome_refused {α : Type} {tree : Tree catalogue} {answer : α → Answer}
    {action : Action catalogue α} {edit : Tree catalogue → Except TreeError (α × Tree catalogue)}
    (isWhole : action = whole edit) {error : TreeError}
    (refused : (Operation.outcome tree answer action).1 = .error error) :
    (Operation.outcome tree answer action).2 = tree := by
  subst isWhole
  rw [Operation.outcome] at refused ⊢
  cases result : (whole edit tree).1 with
  | ok a =>
    rw [result] at refused
    contradiction
  | error cause => exact whole_refused result

theorem perform_refused {tree : Tree catalogue} {operation : Operation}
    (other : operation.builds = false) {error : TreeError}
    (refused : (operation.perform tree).1 = .error error) : (operation.perform tree).2 = tree := by
  cases operation with
  | createNode | createNodeOf => exact outcome_refused (makeFound_eq_whole _) refused
  | set node field value => exact outcome_refused (assign_eq_whole node field value) refused
  | replaceChild parent child value =>
    exact outcome_refused (exchangeChild_eq_whole parent child value) refused
  | splice list start delete items =>
    exact outcome_refused (spliceItems_eq_whole list start delete items) refused
  | push list value => exact outcome_refused (pushValue_eq_whole list value) refused
  | append list items => exact outcome_refused (appendItems_eq_whole list items) refused
  | unshift list value => exact outcome_refused (unshiftValue_eq_whole list value) refused
  | build | parse | cloneSubtree => contradiction
  -- The others are never refused.
  | createList | detach | removeChild | pop | shift | clear | slice | filter | setMetadata | copy =>
    contradiction

theorem WellFormed.keeps_perform {tree : Tree catalogue} (formed : tree.WellFormed)
    {operation : Operation} (builds : operation.builds = true) :
    tree.Keeps (operation.perform tree).2 := by
  cases operation with
  | build json => exact (extends_buildValue "input" json formed formed (.refl tree)).kept
  | parse text => exact (extends_parse text formed formed (.refl tree)).kept
  | cloneSubtree handle =>
    exact (extends_buildValue "clone" (tree.toJson handle) formed formed (.refl tree)).kept
  | _ => contradiction

/-- Of a tree that operations made, an operation that does not build and is refused changes nothing,
and one that builds leaves every node and list there was as it was, whether it succeeds or fails. -/
theorem refusals_and_builds_spare_tree {tree : Tree catalogue} (reachable : tree.Reachable)
    (operation : Operation) :
    (operation.builds = false → ∀ error, (operation.perform tree).1 = .error error →
      (operation.perform tree).2 = tree) ∧
    (operation.builds = true → tree.Keeps (operation.perform tree).2) :=
  ⟨fun other _ refused => perform_refused other refused, reachable.wellFormed.keeps_perform⟩

/-- The first of two items could be taken, but the second is around the list. -/
theorem refusals_and_builds_spare_tree_movedBlock :
    movedBlock.Reachable ∧
    (∃ error, ((Operation.append ⟨0⟩ [some ⟨2⟩, some ⟨0⟩]).perform movedBlock).1 = .error error ∧
      ((Operation.append ⟨0⟩ [some ⟨2⟩, some ⟨0⟩]).perform movedBlock).2 = movedBlock) ∧
    movedBlock.Keeps ((Operation.build (.object [(typeKey, .string "Block"),
      ("body", .array [.object [(typeKey, .string "Block")], .bool true])])).perform movedBlock).2 := by
  have reachable : movedBlock.Reachable := ⟨1, _, rfl⟩
  refine ⟨reachable, ?_, (refusals_and_builds_spare_tree reachable _).2 rfl⟩
  have refused :
      ((Operation.append ⟨0⟩ [some ⟨2⟩, some ⟨0⟩]).perform movedBlock).1.toOption.isNone = true := by
    decide +kernel
  cases answer : ((Operation.append ⟨0⟩ [some ⟨2⟩, some ⟨0⟩]).perform movedBlock).1 with
  | ok made =>
    rw [answer] at refused
    contradiction
  | error error =>
    exact ⟨error, rfl, (refusals_and_builds_spare_tree reachable _).1 rfl error answer⟩

end Tree
end Arbor
