import Arbor.Tree.InPlace

/-! # Changes in place happen as a whole or not at all

An operation works on a tree in place, and each of its steps could leave the tree half changed. All the
checks come before the first change, though, and no change can be refused. So each operation does what
it does as a whole: either all of its changes are made, or the tree is left as it was. -/

namespace Arbor

namespace Action

variable {catalogue : Catalogue} {α β : Type}

/-- All of an edit or, if it is refused, nothing of it. -/
def whole (edit : Tree catalogue → Except TreeError (α × Tree catalogue)) : Action catalogue α :=
  fun tree =>
    match edit tree with
    | .ok (a, after) => (.ok a, after)
    | .error error => (.error error, tree)

theorem whole_of_ok {edit : Tree catalogue → Except TreeError (α × Tree catalogue)}
    {tree after : Tree catalogue} {a : α} (made : edit tree = .ok (a, after)) :
    whole edit tree = (.ok a, after) := by
  rw [whole, made]

theorem whole_of_error {edit : Tree catalogue → Except TreeError (α × Tree catalogue)}
    {tree : Tree catalogue} {error : TreeError} (refused : edit tree = .error error) :
    whole edit tree = (.error error, tree) := by
  rw [whole, refused]

/-- An edit that is refused leaves the tree as it was. -/
theorem whole_refused {edit : Tree catalogue → Except TreeError (α × Tree catalogue)}
    {tree : Tree catalogue} {error : TreeError} (refused : (whole edit tree).1 = .error error) :
    (whole edit tree).2 = tree := by
  cases result : edit tree with
  | ok made =>
    rw [whole_of_ok result] at refused
    contradiction
  | error cause => rw [whole_of_error result]

/-- What holds of the tree as it was and as it is after the edit holds in any case. -/
theorem whole_snd {edit : Tree catalogue → Except TreeError (α × Tree catalogue)}
    {tree : Tree catalogue} {property : Tree catalogue → Prop} (unchanged : property tree)
    (changed : ∀ a after, edit tree = .ok (a, after) → property after) :
    property (whole edit tree).2 := by
  cases made : edit tree with
  | error error =>
    rw [whole_of_error made]
    exact unchanged
  | ok pair =>
    rw [whole_of_ok made]
    exact changed pair.1 pair.2 made

section Steps

variable (tree : Tree catalogue)

theorem bind_of_ok {first : Action catalogue α} {a : α} {after : Tree catalogue}
    (made : first tree = (.ok a, after)) (next : α → Action catalogue β) :
    (first >>= next) tree = next a after := by
  show andThen first next tree = next a after
  rw [andThen, made]

theorem bind_of_error {first : Action catalogue α} {error : TreeError} {after : Tree catalogue}
    (refused : first tree = (.error error, after)) (next : α → Action catalogue β) :
    (first >>= next) tree = (.error error, after) := by
  show andThen first next tree = _
  rw [andThen, refused]

@[simp] theorem look_bind (view : Tree catalogue → α) (next : α → Action catalogue β) :
    (look view >>= next) tree = next (view tree) tree := rfl

@[simp] theorem change_bind (edit : Tree catalogue → Tree catalogue)
    (next : Unit → Action catalogue β) : (change edit >>= next) tree = next () (edit tree) := rfl

@[simp] theorem make_bind (create : Tree catalogue → α × Tree catalogue)
    (next : α → Action catalogue β) :
    (make create >>= next) tree = next (create tree).1 (create tree).2 := rfl

theorem check_bind_of_ok {test : Tree catalogue → Except TreeError α} {a : α}
    (passed : test tree = .ok a) (next : α → Action catalogue β) :
    (check test >>= next) tree = next a tree :=
  bind_of_ok tree (by rw [check, passed]) next

private theorem check_bind_of_error {test : Tree catalogue → Except TreeError α} {error : TreeError}
    (refused : test tree = .error error) (next : α → Action catalogue β) :
    (check test >>= next) tree = (.error error, tree) :=
  bind_of_error tree (by rw [check, refused]) next

/-- Changes one after the other are a fold, and none of them is refused. -/
theorem forEach_change (edit : Tree catalogue → β → Tree catalogue) (bs : List β) :
    forEach (fun b => change fun tree => edit tree b) bs tree = (.ok (), bs.foldl edit tree) := by
  induction bs generalizing tree with
  | nil => rfl
  | cons b rest ih => exact ih (edit tree b)

end Steps

end Action

namespace Tree

variable {catalogue : Catalogue}

open Arbor.Action

theorem makeFound_eq_whole (found : Except TreeError (TypeId × NodeType)) :
    (makeFound found : Action catalogue NodeId) = whole fun tree => tree.createFound found := by
  funext tree
  rw [makeFound]
  cases found with
  | error error =>
    rw [check_bind_of_error tree rfl, whole_of_error rfl]
  | ok type => exact (whole_of_ok rfl).symm

private theorem fillSlot_apply (id : NodeId) (place : Nat) (value : Value) (tree : Tree catalogue) :
    fillSlot id place value tree = (.ok (), tree.putScalar id place value) := by
  rw [fillSlot, look_bind, change_bind, putScalar]
  cases (tree.slots id)[place]?.bind (·.node?) <;> rfl

/-- The value and the cycle are checked before the node leaves its former place. -/
theorem assignSlot_eq_whole (id : NodeId) (place : Nat) (value : Value) :
    (assignSlot id place value : Action catalogue Unit) =
      whole fun tree => (tree.setSlot id place value).map ((), ·) := by
  funext tree
  rw [assignSlot.eq_def]
  cases accepted : tree.checkPlace id place value with
  | error error =>
    rw [check_bind_of_error tree accepted, whole_of_error]
    rw [setSlot.eq_def, accepted]
    rfl
  | ok passed =>
    rw [check_bind_of_ok tree accepted]
    cases value with
    | scalar s | list l =>
      rw [whole_of_ok]
      · exact fillSlot_apply id place _ tree
      · rw [setSlot.eq_def, accepted]
        rfl
    | node child =>
      cases apart : tree.checkAcyclic child (.node id) with
      | error error =>
        dsimp only
        rw [check_bind_of_error tree apart, whole_of_error]
        simp only [setSlot, accepted, apart]
        rfl
      | ok passed =>
        dsimp only
        rw [check_bind_of_ok tree apart, change_bind,
          bind_of_ok _ (fillSlot_apply id place (.node child) (tree.detach child)), whole_of_ok]
        · rfl
        · simp only [setSlot, accepted, apart]
          rfl

theorem assign_eq_whole (id : NodeId) (name : String) (value : Value) :
    (assign id name value : Action catalogue Unit) =
      whole fun tree => (tree.set id name value).map ((), ·) := by
  funext tree
  rw [assign]
  cases found : tree.fieldPlace id name with
  | error error =>
    rw [check_bind_of_error tree found, whole_of_error]
    rw [set, found]
    rfl
  | ok place =>
    rw [check_bind_of_ok tree found, assignSlot_eq_whole, whole, whole, set, found]

section Lists

/-- Items are checked one after the other, up to the first that is refused. -/
theorem forEach_checkItem (l : ListId) (items : List (Option NodeId)) (tree : Tree catalogue) :
    forEach (fun item => check fun tree => tree.checkItem l item) items tree =
      (tree.checkItems l items, tree) := by
  induction items with
  | nil => rfl
  | cons item rest ih =>
    rw [forEach, checkItems]
    cases accepted : tree.checkItem l item with
    | error error => exact check_bind_of_error tree accepted _
    | ok passed => exact (check_bind_of_ok tree accepted _).trans ih

/-- Every item of a batch is checked before the first node changes hands. -/
theorem spliceItems_eq_whole (l : ListId) (start delete : Nat) (items : List (Option NodeId)) :
    (spliceItems l start delete items : Action catalogue _) =
      whole fun tree => tree.splice l start delete items := by
  funext tree
  rw [spliceItems, look_bind]
  dsimp only
  rw [look_bind]
  cases isOwned : tree.isOwned l with
  | false =>
    rw [whole_of_ok]
    · rfl
    · rw [splice, isOwned]
      rfl
  | true =>
    cases accepted : tree.checkItems l (distinctItems [] items) with
    | error error =>
      rw [whole_of_error]
      · exact bind_of_error tree ((forEach_checkItem ..).trans (by rw [accepted])) _
      · simp only [splice, isOwned, accepted, if_true]
    | ok passed =>
      rw [if_pos rfl, bind_of_ok tree ((forEach_checkItem ..).trans (by rw [accepted])), change_bind,
        bind_of_ok _ (forEach_change _ (setParent · none) _), make_bind,
        bind_of_ok _ (forEach_change _ (setParent · (some (.list l))) _), whole_of_ok]
      · rfl
      · simp only [splice, isOwned, accepted, if_true]
        rfl

/-- What is done after a splice only looks at the tree. -/
theorem bind_spliceItems {α : Type} (l : ListId) (start delete : Nat) (items : List (Option NodeId))
    (view : Tree catalogue → α) (tree : Tree catalogue) :
    (spliceItems l start delete items >>= fun _ => look view) tree =
      whole (fun tree => (tree.splice l start delete items).map fun made => (view made.2, made.2))
        tree := by
  rw [spliceItems_eq_whole]
  cases spliced : tree.splice l start delete items with
  | error error =>
    rw [bind_of_error tree (whole_of_error spliced), whole_of_error]
    rw [spliced]
    rfl
  | ok made =>
    rw [bind_of_ok tree (whole_of_ok spliced), whole_of_ok]
    · rfl
    · rw [spliced]
      rfl

theorem appendItems_eq_whole (l : ListId) (items : List (Option NodeId)) :
    (appendItems l items : Action catalogue Nat) = whole fun tree => tree.append l items := by
  funext tree
  rw [appendItems, look_bind, bind_spliceItems, whole, whole, append]
  cases tree.splice l (tree.length l) 0 items <;> rfl

theorem pushValue_eq_whole (l : ListId) (value : Value) :
    (pushValue l value : Action catalogue Nat) = whole fun tree => tree.push l value := by
  funext tree
  rw [pushValue]
  cases isItem : tree.listItem l value with
  | error error =>
    rw [check_bind_of_error tree isItem, whole_of_error]
    rw [push, isItem]
  | ok item =>
    rw [check_bind_of_ok tree isItem, appendItems_eq_whole, whole, whole, push, isItem]

theorem unshiftValue_eq_whole (l : ListId) (value : Value) :
    (unshiftValue l value : Action catalogue Nat) = whole fun tree => tree.unshift l value := by
  funext tree
  rw [unshiftValue]
  cases isItem : tree.listItem l value with
  | error error =>
    rw [check_bind_of_error tree isItem, whole_of_error]
    rw [unshift, isItem]
  | ok item =>
    rw [check_bind_of_ok tree isItem, bind_spliceItems, whole, whole, unshift, isItem]
    dsimp only
    cases tree.splice l 0 0 [item] <;> rfl

theorem exchangeChild_eq_whole (parent : Handle) (child : NodeId) (value : Value) :
    (exchangeChild parent child value : Action catalogue Bool) =
      whole fun tree => tree.replaceChild parent child value := by
  funext tree
  cases parent with
  | node id =>
    rw [exchangeChild, look_bind]
    cases found : tree.slotOf? id child with
    | none => rw [whole_of_ok (by rw [replaceChild, found])]; rfl
    | some place =>
      dsimp only
      rw [assignSlot_eq_whole]
      cases put : tree.setSlot id place value with
      | error error =>
        rw [bind_of_error tree (whole_of_error (by rw [put]; rfl)), whole_of_error]
        simp only [replaceChild, found, put]
        rfl
      | ok after =>
        rw [bind_of_ok tree (whole_of_ok (by rw [put]; rfl)), whole_of_ok]
        · rfl
        · simp only [replaceChild, found, put]
          rfl
  | list id =>
    rw [exchangeChild, look_bind]
    cases found : tree.position? id (some child) with
    | none => rw [whole_of_ok (by rw [replaceChild, found])]; rfl
    | some place =>
      dsimp only
      cases isItem : tree.listItem id value with
      | error error =>
        rw [check_bind_of_error tree isItem, whole_of_error]
        simp only [replaceChild, found, isItem]
      | ok item =>
        rw [check_bind_of_ok tree isItem]
        refine (bind_spliceItems id place 1 [item] (fun _ => true) tree).trans ?_
        simp only [whole, replaceChild, found, isItem]

end Lists

end Tree
end Arbor
