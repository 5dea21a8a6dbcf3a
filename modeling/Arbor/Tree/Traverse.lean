import Arbor.Tree.Basic

/-! # Visiting a tree

A traversal shows a visitor the values below a node or list, fields in the order of the type and
items in the order of the list. A deep traversal goes on below each node and list it shows, unless
the visitor says to skip it. The visitor carries a state from visit to visit and can stop the whole
traversal with a result. -/

namespace Arbor

/-- What a visitor wants to happen next. -/
inductive Visit (β : Type) where
  /-- Go on, below the value too. -/
  | goOn
  /-- Go on, but not below the value. -/
  | skip
  /-- End the traversal. -/
  | stop (result : β)

namespace Tree

variable {catalogue : Catalogue} {σ β : Type}

/-- A visitor, given its state, a value and the key of the value. -/
abbrev Visitor (σ β : Type) := σ → Value → Key → σ × Visit β

/-- Show values one after the other. `below` continues below a value. -/
def visitEach (visitor : Visitor σ β) (below : Value → σ → σ × Option β) :
    List (Value × Key) → σ → σ × Option β
  | [], state => (state, none)
  | (value, key) :: rest, state =>
    match visitor state value key with
    | (state, .stop result) => (state, some result)
    | (state, .skip) => visitEach visitor below rest state
    | (state, .goOn) =>
      match below value state with
      | (state, some result) => (state, some result)
      | (state, none) => visitEach visitor below rest state

/-- Show the values directly below a node or list. -/
def traverseShallow (tree : Tree catalogue) (visitor : Visitor σ β) (handle : Handle) (state : σ) :
    σ × Option β :=
  visitEach visitor (fun _ state => (state, none)) (tree.children handle) state

/-- Show the values up to the given number of levels below a node or list. -/
def traverseUpTo (tree : Tree catalogue) (visitor : Visitor σ β) :
    Nat → Handle → σ → σ × Option β
  | 0, _, state => (state, none)
  | bound + 1, handle, state =>
    let below (value : Value) (state : σ) : σ × Option β :=
      match value.handle? with
      | some handle => tree.traverseUpTo visitor bound handle state
      | none => (state, none)
    visitEach visitor below (tree.children handle) state

/-- Show all values below a node or list. A tree has no more levels than nodes and lists. -/
def traverseDeep (tree : Tree catalogue) (visitor : Visitor σ β) (handle : Handle) (state : σ) :
    σ × Option β :=
  tree.traverseUpTo visitor (tree.size + 1) handle state

end Tree
end Arbor
