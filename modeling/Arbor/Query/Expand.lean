import Arbor.Selector.Basic
import Arbor.Tree.Traverse

/-! # Candidates

The values a combinator leads to. From an item of the tree it leads below or above the item; from a
document, whose only child is the root of a tree, it leads to the root and what is below it. Some
combinators do not enter certain nodes, which are then no candidates either. -/

namespace Arbor

/-- Where a part of a selector is evaluated. -/
inductive Context where
  /-- A document around the given root. -/
  | document (root : Handle)
  /-- A node or list of the tree. -/
  | item (handle : Handle)

/-- The types and categories a combinator does not enter. -/
def Combinator.boundary : Combinator → List String
  | .outsideBlocks => ["BlockStatement", "ForStatement", "ForInStatement", "ForOfStatement"]
  | .outsideFunctions => ["Function"]
  | .outsideClasses => ["Class"]
  | _ => []

namespace Tree

variable {catalogue : Catalogue}

def atBoundary (tree : Tree catalogue) (boundary : List String) : Value → Bool
  | .node id => boundary.any (tree.instanceOf id)
  | _ => false

/-- Candidates with their keys, which the root of a document does not have. -/
abbrev Candidates := List (Value × Option Key)

/-- All values below a node or list, without entering the boundary. -/
def descend (tree : Tree catalogue) (boundary : List String) (handle : Handle) : Candidates :=
  let visitor : Visitor Candidates Empty := fun found value key =>
    if tree.atBoundary boundary value then (found, .skip) else ((value, some key) :: found, .goOn)
  (tree.traverseDeep visitor handle []).1.reverse

/-- What is above a node or list, innermost first. -/
def ascend (tree : Tree catalogue) (handle : Handle) : Candidates :=
  (tree.ancestors handle).map fun parent => (.ofHandle parent, tree.keyOf? parent)

/-- The candidates a combinator leads to from a node or list. -/
def expandItem (tree : Tree catalogue) (handle : Handle) (combinator : Combinator) : Candidates :=
  match combinator with
  | .child => (tree.children handle).map fun (value, key) => (value, some key)
  | .parent => (tree.ascend handle).take 1
  | .ancestor => tree.ascend handle
  | combinator => tree.descend combinator.boundary handle

/-- The candidates a combinator leads to from a document. -/
def expandDocument (tree : Tree catalogue) (root : Handle) (combinator : Combinator) :
    Candidates :=
  match combinator with
  | .child => [(.ofHandle root, none)]
  | .parent => []
  | .ancestor => []
  | combinator =>
    if tree.atBoundary combinator.boundary (.ofHandle root) then []
    else (.ofHandle root, none) :: tree.descend combinator.boundary root

def expand (tree : Tree catalogue) (context : Context) (combinator : Combinator) : Candidates :=
  match context with
  | .document root => tree.expandDocument root combinator
  | .item handle => tree.expandItem handle combinator

end Tree
end Arbor
