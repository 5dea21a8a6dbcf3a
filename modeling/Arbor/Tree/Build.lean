import Arbor.Json.Reader
import Arbor.Tree.InPlace
import Arbor.Tree.Serialise

/-! # Building trees from JSON

An object with a type becomes a node of that type, an array the list of its field or a free list,
and an object with a pattern a regular-expression literal. Members the type does not declare are kept
as metadata. What was made before a fault stays in the tree, held by nothing that was there before. -/

namespace Arbor

/-- The regular-expression literal an object writes: a pattern, and flags unless there are none. -/
def regexOf? (members : Record Json) : Option Regex := do
  let pattern ← (members.get? "pattern").bind Json.string?
  match members.get? "flags" with
  | none => some ⟨pattern, ""⟩
  | some flags => (Json.string? flags).map fun flags => ⟨pattern, flags⟩

/-- The literal of a node whose own member for the value is an empty object, written beside it. -/
def siblingRegex? (members : Record Json) : Json → Option Regex
  | .object [] => match members.get? "regex" with
    | some (.object regex) => regexOf? regex
    | _ => none
  | _ => none

theorem Record.sizeOf_get?_lt {α : Type} [SizeOf α] {record : List (String × α)} {key : String}
    {value : α} (found : Record.get? record key = some value) : sizeOf value < sizeOf record := by
  induction record with
  | nil => simp [Record.get?] at found
  | cons member rest ih =>
    obtain ⟨name, held⟩ := member
    simp only [Record.get?] at found
    split at found
    · simp only [Option.some.injEq] at found
      subst found
      simp only [List.cons.sizeOf_spec, Prod.mk.sizeOf_spec]
      omega
    · have bound := ih found
      simp only [List.cons.sizeOf_spec]
      omega

namespace Tree

variable {catalogue : Catalogue}

def buildNode (members : Record Json) : Action catalogue NodeId :=
  match members.get? typeKey with
  | some (.string name) => makeNode name
  | some other => .fail (.unsupportedValue "type tag" other.compact)
  | none => .fail (.untaggedRecord (Json.object members).compact)

/-- Keep the members of an object that the fields of its node leave over. -/
def keepMetadata (id : NodeId) (members : Record Json) : Action catalogue Unit := fun tree =>
  let names := (tree.fields id).map (·.name)
  let metadata := members.filter fun (key, _) => key != typeKey && !names.contains key
  (.ok (), tree.setMetadata id metadata)

mutual

/-- Build a value. `context` names where it stands. -/
def buildValue (context : String) (json : Json) : Action catalogue Value :=
  match json with
  | .null => .done .null
  | .bool b => .done (.scalar (.boolean b))
  | .number n => .done (.scalar (.number n.toFloat))
  | .string s => .done (.scalar (.string s))
  | .array items => do
    let list ← .make createList
    buildItems context list items
    return .list list
  | .object members =>
    if Record.contains members typeKey then do
      let id ← buildNode members
      let fields ← .look fun tree => tree.fields id
      let name ← .look fun tree => tree.typeName id
      buildFields id name members 0 fields
      keepMetadata id members
      return .node id
    else match regexOf? members with
      | some regex => .done (.scalar (.regex regex))
      | none => .fail (.untaggedRecord (Json.object members).compact)
termination_by (sizeOf json, 0)

/-- Build items and put each at the end of a list. -/
def buildItems (context : String) (list : ListId) (items : List Json) :
    Action catalogue Unit :=
  match items with
  | [] => .done ()
  | item :: rest => do
    let value ← buildValue context item
    let _ ← pushValue list value
    buildItems context list rest
termination_by (sizeOf items, 0)

/-- Build the members of an object that the fields of its node name, in the order of the fields.
`place` numbers the first of the fields, and `type` names the type. -/
def buildFields (id : NodeId) (type : String) (members : List (String × Json)) (place : Nat)
    (fields : List Field) : Action catalogue Unit :=
  match fields with
  | [] => .done ()
  | field :: rest =>
    match found : Record.get? members field.name with
    | none => buildFields id type members (place + 1) rest
    | some raw => do
      buildField id (type ++ "." ++ field.name) members place field raw
      buildFields id type members (place + 1) rest
termination_by (sizeOf members, fields.length + 1)
decreasing_by
  · exact Prod.Lex.right _ (by simp)
  · exact Prod.Lex.left _ _ (Record.sizeOf_get?_lt found)
  · exact Prod.Lex.right _ (by simp)

/-- Build one member of an object into the field at a place. -/
def buildField (id : NodeId) (context : String) (members : List (String × Json)) (place : Nat)
    (field : Field) (raw : Json) : Action catalogue Unit :=
  if field.kind = .list then
    match raw with
    | .null => .done ()
    | .array items => do
      let list ← .check fun tree => tree.list id field.name
      buildItems context list items
    | raw => .fail (.unsupportedValue context raw.compact)
  else
    match siblingRegex? members raw with
    | some regex => assignSlot id place (.scalar (.regex regex))
    | none => do
      let value ← buildValue context raw
      assignSlot id place value
termination_by (sizeOf raw, 1)

end

def build (json : Json) : Action catalogue Value := buildValue "input" json

def parse (text : String) : Action catalogue Value :=
  match Json.parse? text with
  | some json => build json
  | none => .fail .malformed

/-- Build a copy of a node or list and all below it. The copy is held nowhere. -/
def cloneSubtree (handle : Handle) : Action catalogue Value := fun tree =>
  buildValue "clone" (tree.toJson handle) tree

end Tree
end Arbor
