import Arbor.Tree.Field

/-! # Roles of identifiers

Whether an identifier is read or bound depends on the field it sits in, and on the type of the node
around it. The tables list the fields for each type; a type that is in no table gives no role. The
value of a property is read in an object and bound in a pattern. -/

namespace Arbor

/-- The fields that give a role, by the name of a type. -/
abbrev RoleTable := List (String × List String)

/-- The fields in which an identifier is read. -/
def referenceRoles : RoleTable :=
  [("ArrayExpression", ["elements"]),
   ("ArrowFunctionExpression", ["defaults", "body"]),
   ("AssignmentExpression", ["left", "right"]),
   ("AssignmentPattern", ["right"]),
   ("BinaryExpression", ["left", "right"]),
   ("CallExpression", ["callee", "arguments"]),
   ("ComprehensionBlock", ["right"]),
   ("ComprehensionExpression", ["body", "filter"]),
   ("ConditionalExpression", ["test", "consequent", "alternate"]),
   ("DoWhileStatement", ["test"]),
   ("ExpressionStatement", ["expression"]),
   ("ForInStatement", ["left", "right"]),
   ("ForOfStatement", ["left", "right"]),
   ("ForStatement", ["init", "test", "update"]),
   ("FunctionDeclaration", ["defaults"]),
   ("FunctionExpression", ["defaults"]),
   ("IfStatement", ["test"]),
   ("LogicalExpression", ["left", "right"]),
   ("MemberExpression", ["object"]),
   ("NewExpression", ["callee", "arguments"]),
   ("Property", ["value"]),
   ("ReturnStatement", ["argument"]),
   ("SequenceExpression", ["expressions"]),
   ("SpreadElement", ["argument"]),
   ("SwitchCase", ["test"]),
   ("SwitchStatement", ["discriminant"]),
   ("TaggedTemplateExpression", ["tag"]),
   ("TemplateLiteral", ["expressions"]),
   ("ThrowStatement", ["argument"]),
   ("UnaryExpression", ["argument"]),
   ("UpdateExpression", ["argument"]),
   ("VariableDeclarator", ["init"]),
   ("WhileStatement", ["test"]),
   ("WithStatement", ["object"]),
   ("YieldExpression", ["argument"])]

/-- The fields in which an identifier is bound. -/
def declarationRoles : RoleTable :=
  [("ArrayPattern", ["elements"]),
   ("AssignmentPattern", ["left"]),
   ("CatchClause", ["param"]),
   ("ComprehensionBlock", ["left"]),
   ("RestElement", ["argument"]),
   ("VariableDeclarator", ["id"])]

/-- The fields in which an identifier is bound, for all types of a category. -/
def categoryDeclarationRoles : RoleTable :=
  [("Function", ["id", "params", "rest"]),
   ("Class", ["id"])]

def RoleTable.fields (table : RoleTable) (type : String) : List String :=
  (table.lookup type).getD []

namespace Tree

variable {catalogue : Catalogue}

/-- The node around an identifier, which has the given name if one is given. -/
def identifierParent? (tree : Tree catalogue) (id : NodeId) (name : Option String) :
    Option NodeId :=
  if tree.typeName id != "Identifier" then none
  else match name with
    | none => tree.parentNode? (.node id)
    | some name => match tree.get id "name" with
      | .ok value =>
        if value.string? == some name then tree.parentNode? (.node id) else none
      | .error _ => none

/-- The field of a node holds another node, itself or in a list. -/
def holds (tree : Tree catalogue) (parent : NodeId) (field : String) (child : NodeId) : Bool :=
  match tree.get parent field with
  | .ok (.node held) => held == child
  | .ok (.list list) => (tree.items list).contains (some child)
  | _ => false

/-- The property is one of an object pattern. -/
def inObjectPattern (tree : Tree catalogue) (property : NodeId) : Bool :=
  match tree.parent? (.node property) with
  | some (.list list) => (tree.parentNode? (.list list)).any fun owner =>
      tree.typeName owner == "ObjectPattern"
  | _ => false

def isTrue (tree : Tree catalogue) (id : NodeId) (field : String) : Bool :=
  match tree.get id field with
  | .ok (.scalar (.boolean true)) => true
  | _ => false

/-- The node is an identifier that is read, with the given name if one is given. -/
def isReference (tree : Tree catalogue) (id : NodeId) (name : Option String) : Bool :=
  match tree.identifierParent? id name with
  | none => false
  | some parent =>
    let type := tree.typeName parent
    if type == "MemberExpression" && tree.isTrue parent "computed"
        && tree.holds parent "property" id then true
    else if type == "Property" && tree.inObjectPattern parent then false
    else (referenceRoles.fields type).any fun field => tree.holds parent field id

/-- The fields in which the node binds identifiers. -/
def declaringFields (tree : Tree catalogue) (id : NodeId) : List String :=
  declarationRoles.fields (tree.typeName id)
    ++ (categoryDeclarationRoles.filter fun (category, _) => tree.instanceOf id category).flatMap
      (·.2)

/-- The node is an identifier that is bound, with the given name if one is given. -/
def isDeclaration (tree : Tree catalogue) (id : NodeId) (name : Option String) : Bool :=
  match tree.identifierParent? id name with
  | none => false
  | some parent =>
    if tree.typeName parent == "Property" then
      tree.inObjectPattern parent && tree.holds parent "value" id
    else (tree.declaringFields parent).any fun field => tree.holds parent field id

def isScope (tree : Tree catalogue) (id : NodeId) : Bool :=
  tree.typeName id == "Program" || tree.instanceOf id "Function"

end Tree
end Arbor
