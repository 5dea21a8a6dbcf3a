import Arbor.Proofs.Walks

/-! # What a traversal shows

The outline of a node or list has all visits below it in order, each with the visits around it: those of
the values on the way from the start. A traversal whose visitor answers by value and key alone shows the
visits of the outline that have no skipped visit around them, and ends after the first that it is told to
stop at. So a skip leaves out exactly what is below a value, and a stop ends the loops at all levels. -/

namespace Arbor

namespace Visit

variable {β : Type}

def isSkip : Visit β → Bool
  | .skip => true
  | _ => false

def result? : Visit β → Option β
  | .stop result => some result
  | _ => none

end Visit

/-- The items up to and including the first that the test accepts. -/
def throughFirst {α : Type} (test : α → Bool) : List α → List α
  | [] => []
  | item :: rest => if test item then [item] else item :: throughFirst test rest

namespace Tree

variable {catalogue : Catalogue} {σ β : Type}

/-- A visitor whose answer depends on the value and its key alone. -/
def answering (update : σ → Value × Key → σ) (answer : Value × Key → Visit β) : Visitor σ β :=
  fun state value key => (update state (value, key), answer (value, key))

/-- What comes of showing the visits one after the other, up to the first that ends the traversal. -/
def outcomeOf (update : σ → Value × Key → σ) (answer : Value × Key → Visit β)
    (visits : List (Value × Key)) (state : σ) : σ × Option β :=
  ((throughFirst (fun entry => (answer entry).result?.isSome) visits).foldl update state,
    visits.findSome? fun entry => (answer entry).result?)

section Outcome

variable {update : σ → Value × Key → σ} {answer : Value × Key → Visit β}

private theorem outcomeOf_cons_of_stop {entry : Value × Key} {result : β}
    (stops : (answer entry).result? = some result) (rest : List (Value × Key)) (state : σ) :
    outcomeOf update answer (entry :: rest) state = (update state entry, some result) := by
  simp [outcomeOf, throughFirst, stops]

private theorem outcomeOf_cons_of_none {entry : Value × Key}
    (goesOn : (answer entry).result? = none) (rest : List (Value × Key)) (state : σ) :
    outcomeOf update answer (entry :: rest) state =
      outcomeOf update answer rest (update state entry) := by
  simp [outcomeOf, throughFirst, goesOn]

/-- Visits after others do not count if one of those ends the traversal. -/
theorem outcomeOf_append_of_some {first : List (Value × Key)} {state last : σ} {result : β}
    (stops : outcomeOf update answer first state = (last, some result)) (second : List (Value × Key)) :
    outcomeOf update answer (first ++ second) state = (last, some result) := by
  induction first generalizing state with
  | nil => cases stops
  | cons entry rest ih =>
    cases here : (answer entry).result? with
    | some result =>
      rw [outcomeOf_cons_of_stop here] at stops
      rw [List.cons_append, outcomeOf_cons_of_stop here, stops]
    | none =>
      rw [outcomeOf_cons_of_none here] at stops
      rw [List.cons_append, outcomeOf_cons_of_none here, ih stops]

/-- Visits after others go on from where those leave off if none of them ends the traversal. -/
theorem outcomeOf_append_of_none {first : List (Value × Key)} {state last : σ}
    (goesOn : outcomeOf update answer first state = (last, none)) (second : List (Value × Key)) :
    outcomeOf update answer (first ++ second) state = outcomeOf update answer second last := by
  induction first generalizing state with
  | nil =>
    cases goesOn
    rfl
  | cons entry rest ih =>
    cases here : (answer entry).result? with
    | some result =>
      rw [outcomeOf_cons_of_stop here] at goesOn
      cases goesOn
    | none =>
      rw [outcomeOf_cons_of_none here] at goesOn
      rw [List.cons_append, outcomeOf_cons_of_none here, ih goesOn]

/-- Showing values, and what is below each that is not skipped, shows all of these in order. -/
theorem visitEach_answering {below : Value → σ → σ × Option β} (inner : Value → List (Value × Key))
    (follows : ∀ value state, below value state = outcomeOf update answer (inner value) state)
    (values : List (Value × Key)) (state : σ) :
    visitEach (answering update answer) below values state =
      outcomeOf update answer (values.flatMap fun entry =>
        entry :: if (answer entry).isSkip then [] else inner entry.1) state := by
  induction values generalizing state with
  | nil => rfl
  | cons entry rest ih =>
    obtain ⟨value, key⟩ := entry
    rw [visitEach, answering, List.flatMap_cons, List.cons_append]
    cases given : answer (value, key) with
    | stop result => rw [outcomeOf_cons_of_stop (by rw [given]; rfl)]
    | skip =>
      rw [outcomeOf_cons_of_none (by rw [given]; rfl)]
      exact ih _
    | goOn =>
      rw [outcomeOf_cons_of_none (by rw [given]; rfl)]
      simp only [follows]
      rcases went : outcomeOf update answer (inner value) (update state (value, key)) with ⟨last, result⟩
      cases result with
      | some result => exact (outcomeOf_append_of_some went _).symm
      | none => exact (ih last).trans (outcomeOf_append_of_none went _).symm

end Outcome

/-- A value with its key, and the values with their keys on the way to it, outermost first. -/
structure Sighting where
  around : List (Value × Key)
  shown : Value × Key

/-- The same from one level further out. -/
def Sighting.under (outer : Value × Key) (sighting : Sighting) : Sighting :=
  { sighting with around := outer :: sighting.around }

/-- The values up to the given number of levels below a node or list, each followed by those below it. -/
def outlineUpTo (tree : Tree catalogue) : Nat → Handle → List Sighting
  | 0, _ => []
  | bound + 1, handle => (tree.children handle).flatMap fun entry =>
    ⟨[], entry⟩ :: ((entry.1.handle?.map (tree.outlineUpTo bound)).getD []).map (.under entry)

/-- All values below a node or list, each followed by those below it. -/
def outline (tree : Tree catalogue) (handle : Handle) : List Sighting :=
  tree.outlineUpTo (tree.size + 1) handle

/-- Child steps lead from a node or list to what is sighted, through the values around it. -/
inductive Sights (tree : Tree catalogue) : Handle → Sighting → Prop where
  | direct {handle : Handle} {entry : Value × Key} (isChild : entry ∈ tree.children handle) :
      Sights tree handle ⟨[], entry⟩
  | deeper {handle inner : Handle} {entry : Value × Key} {sighting : Sighting}
      (isChild : entry ∈ tree.children handle) (isHandle : entry.1.handle? = some inner)
      (rest : Sights tree inner sighting) : Sights tree handle (sighting.under entry)

section Outline

variable {tree : Tree catalogue}

private theorem mem_outlineUpTo_succ {bound : Nat} {handle : Handle} {sighting : Sighting} :
    sighting ∈ tree.outlineUpTo (bound + 1) handle ↔ ∃ entry ∈ tree.children handle,
      sighting = ⟨[], entry⟩ ∨ ∃ inner, entry.1.handle? = some inner ∧
        ∃ further ∈ tree.outlineUpTo bound inner, sighting = further.under entry := by
  rw [outlineUpTo, List.mem_flatMap]
  refine exists_congr fun entry => and_congr_right fun _ => ?_
  cases entry.1.handle? <;> simp [eq_comm]

private theorem sights_of_mem {bound : Nat} {handle : Handle} {sighting : Sighting}
    (member : sighting ∈ tree.outlineUpTo bound handle) : tree.Sights handle sighting := by
  induction bound generalizing handle sighting with
  | zero => exact absurd member List.not_mem_nil
  | succ bound ih =>
    obtain ⟨entry, isChild, rfl | ⟨inner, isHandle, further, inside, rfl⟩⟩ :=
      mem_outlineUpTo_succ.mp member
    · exact .direct isChild
    · exact .deeper isChild isHandle (ih inside)

/-- There is room for all child steps. -/
theorem WellFormed.mem_outlineUpTo (formed : tree.WellFormed) {handle : Handle} {sighting : Sighting}
    (sights : tree.Sights handle sighting) (present : tree.hasHandle handle = true) {bound : Nat}
    (enough : tree.room handle ≤ bound) : sighting ∈ tree.outlineUpTo bound handle := by
  induction sights generalizing bound with
  | @direct handle entry isChild =>
    have some := formed.room_pos present
    obtain ⟨less, rfl⟩ := Nat.exists_eq_add_of_le' (show 1 ≤ bound by omega)
    exact mem_outlineUpTo_succ.mpr ⟨entry, isChild, .inl rfl⟩
  | @deeper handle inner entry sighting isChild isHandle rest ih =>
    have step : tree.ChildAt handle entry.2 inner := by
      rw [← mem_children_iff, ← handle?_eq_some.mp isHandle]
      exact isChild
    have less := formed.room_lt step
    obtain ⟨smaller, rfl⟩ := Nat.exists_eq_add_of_le' (show 1 ≤ bound by omega)
    have inside := ih (formed.owned.of_childAt step).1 (show tree.room inner ≤ smaller by omega)
    exact mem_outlineUpTo_succ.mpr ⟨entry, isChild, .inr ⟨inner, isHandle, _, inside, rfl⟩⟩

theorem WellFormed.mem_outline_iff (formed : tree.WellFormed) {handle : Handle}
    (present : tree.hasHandle handle = true) {sighting : Sighting} :
    sighting ∈ tree.outline handle ↔ tree.Sights handle sighting :=
  ⟨sights_of_mem, fun sights => formed.mem_outlineUpTo sights present (tree.room_le handle)⟩

end Outline

/-- The visits of the outline that have no skipped visit around them. -/
def unskipped (answer : Value × Key → Visit β) (outline : List Sighting) : List (Value × Key) :=
  (outline.filter fun sighting => sighting.around.all fun entry => !(answer entry).isSkip).map
    (·.shown)

/-- All values below a node or list with their keys, as a traversal shows them that always goes on. -/
def preorder (tree : Tree catalogue) (handle : Handle) : List (Value × Key) :=
  let visitor : Visitor (List (Value × Key)) Empty := fun seen value key => (seen ++ [(value, key)], .goOn)
  (tree.traverseDeep visitor handle []).1

section Traversals

variable {tree : Tree catalogue} {update : σ → Value × Key → σ} {answer : Value × Key → Visit β}

/-- What is below a value is left out if the value is skipped, and otherwise is as it would be alone. -/
theorem unskipped_under (entry : Value × Key) (inner : List Sighting) :
    unskipped answer (inner.map (.under entry)) =
      if (answer entry).isSkip then [] else unskipped answer inner := by
  rw [unskipped, List.filter_map, List.map_map]
  cases skips : (answer entry).isSkip with
  | true => simp [Function.comp_def, Sighting.under, skips]
  | false => simp [Function.comp_def, Sighting.under, skips, unskipped]

private theorem unskipped_outlineUpTo (tree : Tree catalogue) (answer : Value × Key → Visit β)
    (bound : Nat) (handle : Handle) : unskipped answer (tree.outlineUpTo (bound + 1) handle) =
      (tree.children handle).flatMap fun entry => entry :: if (answer entry).isSkip then [] else
        unskipped answer ((entry.1.handle?.map (tree.outlineUpTo bound)).getD []) := by
  rw [outlineUpTo, unskipped, List.filter_flatMap, List.map_flatMap]
  apply List.flatMap_congr
  intro entry _
  rw [← unskipped_under]
  rfl

theorem traverseUpTo_answering (bound : Nat) (handle : Handle) (state : σ) :
    tree.traverseUpTo (answering update answer) bound handle state =
      outcomeOf update answer (unskipped answer (tree.outlineUpTo bound handle)) state := by
  induction bound generalizing handle state with
  | zero => rfl
  | succ bound ih =>
    rw [traverseUpTo, unskipped_outlineUpTo]
    apply visitEach_answering fun value =>
      unskipped answer ((value.handle?.map (tree.outlineUpTo bound)).getD [])
    intro value state
    cases value.handle? with
    | none => rfl
    | some inner => exact ih inner state

theorem traverseShallow_answering (handle : Handle) (state : σ) :
    tree.traverseShallow (answering update answer) handle state =
      outcomeOf update answer (tree.children handle) state := by
  rw [traverseShallow]
  refine (visitEach_answering (fun _ => []) (fun _ _ => rfl) _ _).trans ?_
  simp

/-- The visits around which there is no other are those of the fields or items themselves. -/
theorem direct_outline (tree : Tree catalogue) (handle : Handle) :
    ((tree.outline handle).filter (·.around.isEmpty)).map (·.shown) = tree.children handle := by
  rw [outline, outlineUpTo, List.filter_flatMap, List.map_flatMap]
  simp [List.filter_map, Function.comp_def, Sighting.under]

private theorem throughFirst_of_none {α : Type} {test : α → Bool} {items : List α}
    (none : ∀ item ∈ items, test item = false) : throughFirst test items = items := by
  induction items with
  | nil => rfl
  | cons item rest ih =>
    obtain ⟨here, later⟩ := List.forall_mem_cons.mp none
    rw [throughFirst, here, if_neg Bool.false_ne_true, ih later]

/-- A traversal that always goes on shows all that the outline has. -/
theorem preorder_eq (tree : Tree catalogue) (handle : Handle) :
    tree.preorder handle = (tree.outline handle).map (·.shown) := by
  have goesOn : tree.preorder handle = (tree.traverseUpTo
      (answering (fun seen entry => seen ++ [entry]) fun _ => (.goOn : Visit Empty))
      (tree.size + 1) handle []).1 := rfl
  have neverStops (visits : List (Value × Key)) :
      throughFirst (fun _ => (.goOn : Visit Empty).result?.isSome) visits = visits :=
    throughFirst_of_none fun _ _ => rfl
  have neverSkips (sightings : List Sighting) :
      unskipped (fun _ => (.goOn : Visit Empty)) sightings = sightings.map (·.shown) := by
    rw [unskipped, List.filter_eq_self.mpr]
    exact fun sighting _ => List.all_eq_true.mpr fun _ _ => rfl
  rw [goesOn, traverseUpTo_answering, outcomeOf, neverStops, neverSkips, ← outline]
  dsimp only
  rw [List.foldl_append_eq_append, List.nil_append, ← List.flatMap_def, List.flatMap_singleton']

end Traversals

/-- A traversal that always goes on shows everything that child steps lead to. A deep traversal whose
visitor answers by value and key alone shows of this, in the same order, what has no skipped value around
it, up to and including the first value it stops at, and has the result given there. A shallow traversal
does so with the fields or items themselves, which are those with nothing around them. -/
theorem traversal_is_pruned_outline {tree : Tree catalogue} (reachable : tree.Reachable)
    {start : Handle} (present : tree.hasHandle start = true) :
    tree.preorder start = (tree.outline start).map (·.shown) ∧
    (∀ sighting, sighting ∈ tree.outline start ↔ tree.Sights start sighting) ∧
    ((tree.outline start).filter (·.around.isEmpty)).map (·.shown) = tree.children start ∧
    ∀ (σ β : Type) (update : σ → Value × Key → σ) (answer : Value × Key → Visit β) (state : σ),
      tree.traverseDeep (answering update answer) start state =
        outcomeOf update answer (unskipped answer (tree.outline start)) state ∧
      tree.traverseShallow (answering update answer) start state =
        outcomeOf update answer (tree.children start) state :=
  ⟨tree.preorder_eq start, fun _ => reachable.wellFormed.mem_outline_iff present,
    tree.direct_outline start, fun _ _ _ _ state =>
      ⟨traverseUpTo_answering _ start state, traverseShallow_answering start state⟩⟩

/-- Does not go below the second block, and stops at the third. -/
def pastSecond : Value × Key → Visit NodeId
  | (.node ⟨1⟩, _) => .skip
  | (.node ⟨2⟩, _) => .stop ⟨2⟩
  | _ => .goOn

/-- What is below the second block is passed over, and what comes after the third is not reached. -/
theorem traversal_is_pruned_outline_movedBlock :
    movedBlock.Reachable ∧ movedBlock.hasHandle (.node ⟨0⟩) = true ∧
      shownHandles (movedBlock.preorder (.node ⟨0⟩)) =
        [.list ⟨0⟩, .node ⟨1⟩, .list ⟨1⟩, .node ⟨2⟩, .list ⟨2⟩] ∧
      shownHandles (movedBlock.traverseDeep (answering (fun seen entry => seen ++ [entry]) pastSecond)
        (.node ⟨0⟩) []).1 = [.list ⟨0⟩, .node ⟨1⟩, .node ⟨2⟩] ∧
      (movedBlock.traverseDeep (answering (fun seen entry => seen ++ [entry]) pastSecond)
        (.node ⟨0⟩) []).2 = some ⟨2⟩ ∧
      (movedBlock.traverseShallow (answering (fun count _ => count + 1) pastSecond) (.node ⟨0⟩) 0) =
        (2, none) := by
  have reachable : movedBlock.Reachable := ⟨1, _, rfl⟩
  have present : movedBlock.hasHandle (.node ⟨0⟩) = true := by decide +kernel
  obtain ⟨all, -, -, visits⟩ := traversal_is_pruned_outline reachable present
  obtain ⟨deep, -⟩ := visits _ _ (fun seen entry => seen ++ [entry]) pastSecond []
  obtain ⟨-, shallow⟩ := visits _ _ (fun count _ => count + 1) pastSecond 0
  rw [all, deep, shallow]
  refine ⟨reachable, present, ?_, ?_, ?_, ?_⟩ <;> decide +kernel

end Tree
end Arbor
