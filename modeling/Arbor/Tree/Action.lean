import Arbor.Tree.Basic
import Arbor.Tree.Error

/-! # Working on a tree in place

An action works on a tree step by step and may be refused at any of them. What it changed before that
stays changed. -/

namespace Arbor

/-- Something done to a tree in place: it leaves a tree behind even when it fails. -/
abbrev Action (catalogue : Catalogue) (α : Type) :=
  Tree catalogue → Except TreeError α × Tree catalogue

namespace Action

variable {catalogue : Catalogue} {α β : Type}

/-- One action, then another that knows its result; a fault ends both. -/
def andThen (first : Action catalogue α) (next : α → Action catalogue β) : Action catalogue β :=
  fun tree =>
    match first tree with
    | (.ok a, tree) => next a tree
    | (.error error, tree) => (.error error, tree)

def done (a : α) : Action catalogue α := fun tree => (.ok a, tree)

def fail (error : TreeError) : Action catalogue α := fun tree => (.error error, tree)

def look (view : Tree catalogue → α) : Action catalogue α := fun tree => (.ok (view tree), tree)

/-- Look at the tree for something that may be refused. -/
def check (test : Tree catalogue → Except TreeError α) : Action catalogue α := fun tree =>
  (test tree, tree)

def change (edit : Tree catalogue → Tree catalogue) : Action catalogue Unit := fun tree =>
  (.ok (), edit tree)

/-- Change the tree in a way that has a result. -/
def make (create : Tree catalogue → α × Tree catalogue) : Action catalogue α := fun tree =>
  (.ok (create tree).1, (create tree).2)

/-- An action for each of several things, in order. -/
def forEach (action : β → Action catalogue Unit) : List β → Action catalogue Unit
  | [] => done ()
  | b :: rest => andThen (action b) fun _ => forEach action rest

instance : Monad (Action catalogue) where
  pure := done
  bind := andThen

end Action
end Arbor
