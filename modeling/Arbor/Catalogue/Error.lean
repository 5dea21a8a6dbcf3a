import Arbor.Text.Similarity

/-! # Faults of catalogues

Why declarations do not make a catalogue. A fault that is about an unknown name carries the known
name closest to it. -/

namespace Arbor

/-- The words that suggest a name, if there is one to suggest. -/
def suggestion : Option String → String
  | some name => " (did you mean '" ++ name ++ "'?)"
  | none => ""

/-- Why a catalogue cannot be had. -/
inductive CatalogueError where
  | unknownBase (type base : String) (hint : Option String)
  | duplicateType (type : String)
  | duplicateField (type field : String)
  | unresolvedAccept (type field entry : String) (hint : Option String)
  | mixedAccepts (type field : String)
  | emptyAccepts (type field : String)
  | invalidListAccepts (type field : String)
  | invalidDefault (type field value : String)
  | unknownCategoryMember (category member : String) (hint : Option String)
  | duplicateCategory (name : String)
  /-- The file cannot be read. -/
  | unreadable (path cause : String)
  /-- The text is not that of a catalogue. -/
  | malformed (path : Option String)
  deriving DecidableEq

def CatalogueError.malformedText : String := "the text does not declare a catalogue"

def CatalogueError.message : CatalogueError → String
  | .unknownBase type base hint =>
    "type '" ++ type ++ "' extends unknown base '" ++ base ++ "'" ++ suggestion hint
  | .duplicateType type => "type '" ++ type ++ "' is declared more than once"
  | .duplicateField type field =>
    "field '" ++ field ++ "' of '" ++ type ++ "' is declared more than once"
  | .unresolvedAccept type field entry hint =>
    "field '" ++ field ++ "' of '" ++ type ++ "' accepts unknown type '" ++ entry ++ "'"
      ++ suggestion hint
  | .mixedAccepts type field =>
    "field '" ++ field ++ "' of '" ++ type ++ "' mixes node types with primitive kinds"
  | .emptyAccepts type field => "field '" ++ field ++ "' of '" ++ type ++ "' has an empty accept set"
  | .invalidListAccepts type field =>
    "list field '" ++ field ++ "' of '" ++ type ++ "' may only accept node types and null"
  | .invalidDefault type field value =>
    "default " ++ value ++ " of field '" ++ field ++ "' in '" ++ type
      ++ "' is not accepted by the field"
  | .unknownCategoryMember category member hint =>
    "category '" ++ category ++ "' lists unknown type '" ++ member ++ "'" ++ suggestion hint
  | .duplicateCategory name =>
    "category '" ++ name ++ "' clashes with an existing type or category"
  | .unreadable path cause => "failed to read schema from " ++ path ++ ": " ++ cause
  | .malformed none => "failed to parse schema TOML: " ++ malformedText
  | .malformed (some path) => "failed to parse schema TOML (" ++ path ++ "): " ++ malformedText

def CatalogueError.causes : CatalogueError → List String
  | .unreadable _ cause => [cause]
  | .malformed _ => [malformedText]
  | _ => []

end Arbor
