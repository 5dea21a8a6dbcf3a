import Arbor.Catalogue.Draft
import Arbor.Toml.Reader

/-! # Catalogues in TOML

The written form of a catalogue is a TOML document with the name under `meta`, a table of
`categories` and an array of `types`. Unknown keys are ignored. A record may also be written as an
array of its members in the order in which they are listed here. -/

namespace Arbor.Catalogue
namespace Reader

/-- The members of a record whose known keys are given. -/
def record? (keys : List String) : Toml → Option (Record Toml)
  | .table members => some members
  | .array items => some (keys.zip items)
  | .date => some []
  | _ => none

def string? : Toml → Option String
  | .string s => some s
  | _ => none

def boolean? : Toml → Option Bool
  | .boolean b => some b
  | _ => none

def array? {α : Type} (read? : Toml → Option α) : Toml → Option (List α)
  | .array items => items.mapM read?
  | _ => none

def literal? : Toml → Option Literal
  | .boolean b => some (.boolean b)
  | .integer n => some (.number (Decimal.ofInt n))
  | .float x => some (.number x)
  | .string s => some (.string s)
  | _ => none

/-- A member that may be missing. -/
def member? {α : Type} (record : Record Toml) (key : String) (missing : α)
    (read? : Toml → Option α) : Option α :=
  match record.get? key with
  | some value => read? value
  | none => some missing

def field? (toml : Toml) : Option FieldDecl := do
  let record ← record? ["name", "list", "accepts", "one_of", "default"] toml
  let name ← (record.get? "name").bind string?
  let list ← member? record "list" false boolean?
  let accepts ← member? record "accepts" [] (array? string?)
  let oneOf ← member? record "one_of" [] (array? literal?)
  let default ← member? record "default" none fun value => (literal? value).map some
  return ⟨name, list, accepts, oneOf, default⟩

def type? (toml : Toml) : Option TypeDecl := do
  let record ← record? ["type", "extends", "abstract", "fields"] toml
  let name ← (record.get? "type").bind string?
  let base ← member? record "extends" none fun value => (string? value).map some
  let isAbstract ← member? record "abstract" false boolean?
  let fields ← member? record "fields" [] (array? field?)
  return ⟨name, base, isAbstract, fields⟩

/-- The name of a catalogue, beside a description that is not kept. -/
def name? (toml : Toml) : Option String := do
  let record ← record? ["name", "description"] toml
  let name ← member? record "name" "" string?
  let _ ← member? record "description" "" string?
  return name

def categories? : Toml → Option (List (String × List String))
  | .table members => members.mapM fun (name, value) => (array? string? value).map (name, ·)
  | _ => none

def declarations? (document : Record Toml) : Option CatalogueDecl := do
  let name ← member? document "meta" "" name?
  let categories ← member? document "categories" [] categories?
  let types ← member? document "types" [] (array? type?)
  return ⟨name, categories, types⟩

end Reader

def parse (text : String) : Except CatalogueError Catalogue :=
  match (Toml.read? text).bind Reader.declarations? with
  | none => .error (.malformed none)
  | some decl => ofDecl decl

/-- The catalogue the text of a file declares. A fault of the text names the file. -/
def parseFile (path text : String) : Except CatalogueError Catalogue :=
  match parse text with
  | .error (.malformed none) => .error (.malformed (some path))
  | result => result

end Arbor.Catalogue
