import Arbor.Json.Printer
import Arbor.Tree.Basic

/-! # Trees as JSON

A node is written as an object: its type under `type`, then the fields something is assigned to, list
fields always, then the metadata that no other member hides. -/

namespace Arbor

/-- The member that tells the type of a node. -/
def typeKey : String := "type"

/-- A scalar as JSON. Both marks of absence are null. -/
def Scalar.toJson : Scalar → Json
  | .undefined => .null
  | .null => .null
  | .boolean b => .bool b
  | .number x => Json.ofFloat x
  | .string s => .string s
  | .regex r => .object [("pattern", .string r.pattern), ("flags", .string r.flags)]

/-- The value something was assigned to. -/
def Value.isSet : Value → Bool
  | .scalar .undefined => false
  | _ => true

namespace Tree

variable {catalogue : Catalogue}

/-- A value as JSON, given how nodes and lists are written. -/
def valueJson (handleJson : Handle → Json) : Value → Json
  | .scalar s => s.toJson
  | .node id => handleJson (.node id)
  | .list id => handleJson (.list id)

/-- The members of a node, given how nodes and lists are written. -/
def nodeMembers (tree : Tree catalogue) (handleJson : Handle → Json) (id : NodeId) : Record Json :=
  let assigned := ((tree.fields id).zip (tree.slots id)).filter fun (_, value) => value.isSet
  let record := assigned.foldl
    (fun record (field, value) => Record.insert field.name (valueJson handleJson value) record)
    [(typeKey, .string (tree.typeName id))]
  (tree.metadata id).foldl
    (fun record (key, json) =>
      if Record.contains record key then record else Record.insert key json record)
    record

/-- A node or list as JSON, up to the given number of levels. -/
def toJsonUpTo (tree : Tree catalogue) : Nat → Handle → Json
  | 0, _ => .null
  | bound + 1, .node id => .object (tree.nodeMembers (tree.toJsonUpTo bound) id)
  | bound + 1, .list id =>
    .array ((tree.items id).map fun item => valueJson (tree.toJsonUpTo bound) (.ofItem item))

/-- A node or list as JSON. A tree has no more levels than nodes and lists. -/
def toJson (tree : Tree catalogue) (handle : Handle) : Json :=
  tree.toJsonUpTo (tree.size + 1) handle

/-- A value as JSON. -/
def valueToJson (tree : Tree catalogue) (value : Value) : Json := valueJson tree.toJson value

end Tree
end Arbor
