import Arbor.Scalar

/-! # Declarations

A catalogue as it is written down: node types with their bases and fields, and categories that
gather types under a name. Types and categories refer to each other by name. -/

namespace Arbor

/-- A literal value in a declaration. -/
inductive Literal where
  | boolean (b : Bool)
  | number (x : Float)
  | string (s : String)

def Literal.toScalar : Literal → Scalar
  | .boolean b => .boolean b
  | .number x => .number x
  | .string s => .string s

def Literal.display (literal : Literal) : String := literal.toScalar.display

structure FieldDecl where
  name : String
  /-- The field holds a list of nodes. -/
  list : Bool
  /-- Names of types, categories and kinds of scalars, and the words for absence. -/
  accepts : List String
  /-- The literal values the field is restricted to, if there are any. -/
  oneOf : List Literal
  /-- What the field reads as while nothing is assigned. -/
  default : Option Literal

structure TypeDecl where
  name : String
  /-- The type it extends; the root type when there is none. -/
  base : Option String
  isAbstract : Bool
  fields : List FieldDecl

structure CatalogueDecl where
  name : String
  categories : List (String × List String)
  types : List TypeDecl

end Arbor
