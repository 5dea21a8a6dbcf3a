import Arbor.Tree.Action
import Arbor.Tree.List

/-! # Changes in place

The operations that can be refused, as they are done to a tree in place: looked at, checked, and then
changed one entry after the other. -/

namespace Arbor.Tree

variable {catalogue : Catalogue}

open Arbor.Action

/-- Make a node of a type, unless the type was refused. -/
def makeFound (found : Except TreeError (TypeId × NodeType)) : Action catalogue NodeId := do
  let type ← check fun _ => found
  make fun tree => tree.allocNode type.1 type.2.fields

def makeNodeOf (type : TypeId) : Action catalogue NodeId := makeFound (concreteAt catalogue type)

def makeNode (name : String) : Action catalogue NodeId := makeFound (concreteType catalogue name)

/-- Put a value into a slot; a node the slot held is then held nowhere. -/
def fillSlot (id : NodeId) (place : Nat) (value : Value) : Action catalogue Unit := do
  let previous ← look fun tree => (tree.slots id)[place]?.bind (·.node?)
  change fun tree => tree.setSlotValue id place value
  match previous with
  | some previous => change fun tree => tree.setParent none previous
  | none => done ()

def assignSlot (id : NodeId) (place : Nat) (value : Value) : Action catalogue Unit := do
  check fun tree => tree.checkPlace id place value
  match value with
  | .node child =>
    check fun tree => tree.checkAcyclic child (.node id)
    change fun tree => tree.detach child
    fillSlot id place (.node child)
    change fun tree => tree.setParent (some (.node id)) child
  | value => fillSlot id place value

def assign (id : NodeId) (name : String) (value : Value) : Action catalogue Unit := do
  let place ← check fun tree => tree.fieldPlace id name
  assignSlot id place value

/-- Take out `delete` items from `start` on and put others in their place; returns those taken out. A
list that belongs to a field checks all the items, gives up those it loses, takes the nodes it gets from
where they were, and only then has its new items. -/
def spliceItems (list : ListId) (start delete : Nat) (items : List (Option NodeId)) :
    Action catalogue (List (Option NodeId)) := do
  let held ← look fun tree => tree.items list
  let start := min start held.length
  let stop := min (furtherOn held.length start delete) held.length
  let removed := (held.take stop).drop start
  if ← look fun tree => tree.isOwned list then
    let items := distinctItems [] items
    let nodes := itemNodes items
    forEach (fun item => check fun tree => tree.checkItem list item) items
    change fun tree => tree.setItems list (held.take start ++ held.drop stop)
    forEach (fun node => change fun tree => tree.setParent none node) (itemNodes removed)
    let place ← make fun tree => tree.fetchAll list start nodes
    forEach (fun node => change fun tree => tree.setParent (some (.list list)) node) nodes
    change fun tree => tree.insertAt list place items
  else
    change fun tree => tree.setItems list (held.take start ++ items ++ held.drop stop)
  return removed

/-- Put items at the end; returns the new length. -/
def appendItems (list : ListId) (items : List (Option NodeId)) : Action catalogue Nat := do
  let length ← look fun tree => tree.length list
  let _ ← spliceItems list length 0 items
  look fun tree => tree.length list

/-- Put one value at the end; returns the new length. -/
def pushValue (list : ListId) (value : Value) : Action catalogue Nat := do
  let item ← check fun tree => tree.listItem list value
  appendItems list [item]

/-- Put one value at the start; returns the new length. -/
def unshiftValue (list : ListId) (value : Value) : Action catalogue Nat := do
  let item ← check fun tree => tree.listItem list value
  let _ ← spliceItems list 0 0 [item]
  look fun tree => tree.length list

/-- Put a value where the given parent holds a node; tells whether it was held there. -/
def exchangeChild (parent : Handle) (child : NodeId) (value : Value) : Action catalogue Bool :=
  match parent with
  | .node id => do
    match ← look fun tree => tree.slotOf? id child with
    | none => return false
    | some place =>
      assignSlot id place value
      return true
  | .list id => do
    match ← look fun tree => tree.position? id (some child) with
    | none => return false
    | some place =>
      let item ← check fun tree => tree.listItem id value
      let _ ← spliceItems id place 1 [item]
      return true

end Arbor.Tree
