import Arbor.Catalogue.Draft

/-! # The ESTree catalogue

The node types of ECMAScript syntax trees: those of the fifth edition, and those of the 2015 edition
that the pseudo-classes know. -/

namespace Arbor
namespace Estree

/-- A field for one node or scalar. -/
def single (name : String) (accepts : List String) : FieldDecl := ⟨name, false, accepts, [], none⟩

/-- A field for a list of nodes. -/
def nodes (name : String) (accepts : List String) : FieldDecl := ⟨name, true, accepts, [], none⟩

/-- A field for one of the given strings. -/
def choice (name : String) (values : List String) (default : Option String) : FieldDecl :=
  ⟨name, false, [], values.map .string, default.map .string⟩

def type (name : String) (fields : List FieldDecl) : TypeDecl := ⟨name, none, false, fields⟩

def extending (base name : String) (fields : List FieldDecl) : TypeDecl :=
  ⟨name, some base, false, fields⟩

def bases : List TypeDecl :=
  [⟨"Statement", none, true, []⟩,
   ⟨"Expression", none, true, []⟩,
   ⟨"Declaration", some "Statement", true, []⟩]

def statements : List TypeDecl :=
  [type "Program"
     [nodes "body" ["Statement"],
      choice "sourceType" ["script", "module"] (some "script")],
   extending "Statement" "EmptyStatement" [],
   extending "Statement" "BlockStatement" [nodes "body" ["Statement"]],
   extending "Statement" "ExpressionStatement" [single "expression" ["Expression"]],
   extending "Statement" "IfStatement"
     [single "test" ["Expression"],
      single "consequent" ["Statement"],
      single "alternate" ["Statement", "null"]],
   extending "Statement" "LabeledStatement"
     [single "label" ["Identifier"],
      single "body" ["Statement"]],
   extending "Statement" "BreakStatement" [single "label" ["Identifier", "null"]],
   extending "Statement" "ContinueStatement" [single "label" ["Identifier", "null"]],
   extending "Statement" "WithStatement"
     [single "object" ["Expression"],
      single "body" ["Statement"]],
   extending "Statement" "SwitchStatement"
     [single "discriminant" ["Expression"],
      nodes "cases" ["SwitchCase"],
      single "lexical" ["boolean"]],
   type "SwitchCase" [single "test" ["Expression", "null"], nodes "consequent" ["Statement"]],
   extending "Statement" "ReturnStatement" [single "argument" ["Expression", "null"]],
   extending "Statement" "ThrowStatement" [single "argument" ["Expression"]],
   extending "Statement" "TryStatement"
     [single "block" ["BlockStatement"],
      single "handler" ["CatchClause", "null"],
      nodes "guardedHandlers" ["CatchClause"],
      single "finalizer" ["BlockStatement", "null"]],
   type "CatchClause"
     [single "param" ["Pattern"],
      single "guard" ["Expression", "null"],
      single "body" ["BlockStatement"]],
   extending "Statement" "WhileStatement"
     [single "test" ["Expression"],
      single "body" ["Statement"]],
   extending "Statement" "DoWhileStatement"
     [single "body" ["Statement"],
      single "test" ["Expression"]],
   extending "Statement" "ForStatement"
     [single "init" ["VariableDeclaration", "Expression", "null"],
      single "test" ["Expression", "null"],
      single "update" ["Expression", "null"],
      single "body" ["Statement"]],
   extending "Statement" "ForInStatement"
     [single "left" ["VariableDeclaration", "Pattern", "Expression"],
      single "right" ["Expression"],
      single "body" ["Statement"],
      single "each" ["boolean"]],
   extending "Statement" "ForOfStatement"
     [single "left" ["VariableDeclaration", "Pattern", "Expression"],
      single "right" ["Expression"],
      single "body" ["Statement"]],
   extending "Statement" "DebuggerStatement" []]

def declarations : List TypeDecl :=
  [extending "Declaration" "FunctionDeclaration"
     [single "id" ["Identifier", "null"],
      nodes "params" ["Pattern"],
      nodes "defaults" ["Expression", "null"],
      single "rest" ["Identifier", "null"],
      single "body" ["BlockStatement", "Expression"],
      single "generator" ["boolean"],
      single "async" ["boolean"],
      single "expression" ["boolean"]],
   extending "Declaration" "VariableDeclaration"
     [nodes "declarations" ["VariableDeclarator"],
      choice "kind" ["var", "let", "const"] (some "var")],
   type "VariableDeclarator" [single "id" ["Pattern"], single "init" ["Expression", "null"]],
   type "ClassBody" [nodes "body" ["MethodDefinition"]],
   extending "Declaration" "ClassDeclaration"
     [single "id" ["Identifier", "null"],
      single "superClass" ["Expression", "null"],
      single "body" ["ClassBody"]],
   type "MethodDefinition"
     [single "key" ["Expression"],
      single "value" ["FunctionExpression"],
      choice "kind" ["constructor", "method", "get", "set"] (some "method"),
      single "computed" ["boolean"],
      single "static" ["boolean"]]]

def expressions : List TypeDecl :=
  [extending "Expression" "Identifier" [single "name" ["string"]],
   extending "Expression" "Literal"
     [single "value" ["string", "boolean", "null", "number", "regexp"]],
   extending "Expression" "ThisExpression" [],
   extending "Expression" "ArrayExpression" [nodes "elements" ["Expression", "null"]],
   extending "Expression" "ObjectExpression" [nodes "properties" ["Property"]],
   type "Property"
     [single "key" ["Expression"],
      single "value" ["Pattern", "Expression"],
      choice "kind" ["init", "get", "set"] (some "init"),
      single "method" ["boolean"],
      single "shorthand" ["boolean"],
      single "computed" ["boolean"]],
   extending "Expression" "FunctionExpression"
     [single "id" ["Identifier", "null"],
      nodes "params" ["Pattern"],
      nodes "defaults" ["Expression", "null"],
      single "rest" ["Identifier", "null"],
      single "body" ["BlockStatement", "Expression"],
      single "generator" ["boolean"],
      single "async" ["boolean"],
      single "expression" ["boolean"]],
   extending "Expression" "ArrowFunctionExpression"
     [single "id" ["Identifier", "null"],
      nodes "params" ["Pattern"],
      nodes "defaults" ["Expression", "null"],
      single "rest" ["Identifier", "null"],
      single "body" ["BlockStatement", "Expression"],
      single "generator" ["boolean"],
      single "async" ["boolean"],
      single "expression" ["boolean"]],
   extending "Expression" "ClassExpression"
     [single "id" ["Identifier", "null"],
      single "superClass" ["Expression", "null"],
      single "body" ["ClassBody"]],
   extending "Expression" "SequenceExpression" [nodes "expressions" ["Expression"]],
   extending "Expression" "UnaryExpression"
     [choice "operator" ["-", "+", "!", "~", "typeof", "void", "delete"] none,
      single "prefix" ["boolean"],
      single "argument" ["Expression"]],
   extending "Expression" "BinaryExpression"
     [choice "operator" ["==", "!=", "===", "!==", "<", "<=", ">", ">=", "<<", ">>", ">>>", "+",
          "-", "*", "/", "%", "|", "^", "&", "in", "instanceof", ".."] none,
      single "left" ["Expression"],
      single "right" ["Expression"]],
   extending "Expression" "AssignmentExpression"
     [choice "operator" ["=", "+=", "-=", "*=", "/=", "%=", "<<=", ">>=", ">>>=", "|=", "^=",
          "&="] none,
      single "left" ["Pattern", "Expression"],
      single "right" ["Expression"]],
   extending "Expression" "UpdateExpression"
     [choice "operator" ["++", "--"] none,
      single "argument" ["Expression"],
      single "prefix" ["boolean"]],
   extending "Expression" "LogicalExpression"
     [choice "operator" ["||", "&&"] none,
      single "left" ["Expression"],
      single "right" ["Expression"]],
   extending "Expression" "ConditionalExpression"
     [single "test" ["Expression"],
      single "consequent" ["Expression"],
      single "alternate" ["Expression"]],
   extending "Expression" "CallExpression"
     [single "callee" ["Expression"],
      nodes "arguments" ["Expression"]],
   extending "Expression" "NewExpression"
     [single "callee" ["Expression"],
      nodes "arguments" ["Expression"]],
   extending "Expression" "MemberExpression"
     [single "object" ["Expression"],
      single "property" ["Expression"],
      single "computed" ["boolean"]],
   extending "Expression" "YieldExpression"
     [single "argument" ["Expression", "null"],
      single "delegate" ["boolean"]],
   type "ComprehensionBlock"
     [single "left" ["Pattern"],
      single "right" ["Expression"],
      single "each" ["boolean"]],
   extending "Expression" "ComprehensionExpression"
     [single "body" ["Expression"],
      nodes "blocks" ["ComprehensionBlock"],
      single "filter" ["Expression", "null"]],
   extending "Expression" "SpreadElement" [single "argument" ["Expression"]],
   type "TemplateElement" [single "tail" ["boolean"]],
   extending "Expression" "TemplateLiteral"
     [nodes "quasis" ["TemplateElement"],
      nodes "expressions" ["Expression"]],
   extending "Expression" "TaggedTemplateExpression"
     [single "tag" ["Expression"],
      single "quasi" ["TemplateLiteral"]]]

def patterns : List TypeDecl :=
  [type "ArrayPattern" [nodes "elements" ["Pattern", "null"]],
   type "ObjectPattern" [nodes "properties" ["Property", "RestElement"]],
   type "AssignmentPattern" [single "left" ["Pattern"], single "right" ["Expression"]],
   type "RestElement" [single "argument" ["Pattern"]]]

/-- Groups of types that are tested by one name. -/
def categories : List (String × List String) :=
  [("Pattern", ["Identifier", "ArrayPattern", "ObjectPattern", "AssignmentPattern", "RestElement"]),
   ("Function", ["FunctionDeclaration", "FunctionExpression", "ArrowFunctionExpression"]),
   ("Class", ["ClassDeclaration", "ClassExpression"])]

def decl : CatalogueDecl :=
  ⟨"estree", categories, bases ++ statements ++ declarations ++ expressions ++ patterns⟩

end Estree

def Catalogue.estree : Except CatalogueError Catalogue := Catalogue.ofDecl Estree.decl

end Arbor
