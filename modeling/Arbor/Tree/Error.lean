import Arbor.Catalogue.Error

/-! # Faults of tree operations

Why an operation on a tree, or the building of one, is refused. -/

namespace Arbor

/-- Why a tree operation is refused. -/
inductive TreeError where
  | missingType (type : String) (hint : Option String)
  | abstractType (type : String)
  | unknownField (type field : String)
  | listField (type field : String)
  | notAList (type field : String)
  | invalidValue (type field value accepts : String)
  | invalidListItem (list value accepts : String)
  | cycle (child parent : String)
  | untaggedRecord (record : String)
  | unsupportedValue (context value : String)
  /-- The text is not JSON. -/
  | malformed
  deriving DecidableEq

def TreeError.malformedText : String := "the text is not a JSON document"

def TreeError.message : TreeError → String
  | .missingType type hint => "missing type (" ++ type ++ ")" ++ suggestion hint
  | .abstractType type => "type '" ++ type ++ "' is abstract and cannot be instantiated"
  | .unknownField type field => "'" ++ type ++ "' has no field '" ++ field ++ "'"
  | .listField type field =>
    "field '" ++ field ++ "' of '" ++ type ++ "' is a list; mutate its contents instead"
  | .notAList type field => "field '" ++ field ++ "' of '" ++ type ++ "' is not a list"
  | .invalidValue type field value accepts =>
    "invalid value (" ++ value ++ ") for " ++ field ++ " in " ++ type ++ ", expected " ++ accepts
  | .invalidListItem list value accepts =>
    "invalid list item (" ++ value ++ ") on " ++ list ++ ", expected " ++ accepts
  | .cycle child parent =>
    "attaching " ++ child ++ " under " ++ parent ++ " would make it its own ancestor"
  | .untaggedRecord record => "record without a type tag: " ++ record
  | .unsupportedValue context value => "unsupported value in " ++ context ++ ": " ++ value
  | .malformed => "invalid JSON: " ++ malformedText

def TreeError.causes : TreeError → List String
  | .malformed => [malformedText]
  | _ => []

end Arbor
