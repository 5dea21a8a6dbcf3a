import Arbor.Record

/-! # TOML values and tables

The values of the configuration format TOML, and how the lines of a document build up its tables. Of
dates and times only the presence is kept, as they have no use here beyond being told apart from
everything else.

A header makes a table for good and the tables on its path if need be; a dotted key makes tables that
only dotted keys of the same header may add to; a header in double brackets adds a row to an array of
tables; a value is closed to all of them. -/

namespace Arbor

inductive Toml where
  | string (s : String)
  | integer (n : Int)
  | float (x : Float)
  | boolean (b : Bool)
  | date
  | array (items : List Toml)
  | table (members : List (String × Toml))

namespace Toml

/-- How a table came to be. -/
inductive Origin where
  /-- A header names it. -/
  | header
  /-- It lies on the path of a header. -/
  | implied
  /-- It lies on the path of a dotted key. -/
  | dotted
  deriving DecidableEq

/-- A member of a table that is still open to later lines. -/
inductive Entry where
  | value (value : Toml)
  | table (origin : Origin) (members : List (String × Entry))
  /-- The rows of an array of tables, the latest first. -/
  | rows (latest : List (String × Entry)) (earlier : List (List (String × Entry)))

inductive Line where
  | header (path : List String)
  | row (path : List String)
  | assign (path : List String) (value : Toml)

mutual

/-- The value of an entry when all lines are read. -/
def Entry.close : Entry → Toml
  | .value value => value
  | .table _ members => .table (closeMembers members)
  | .rows latest earlier =>
    .array ((Toml.table (closeMembers latest) :: closeRows earlier).reverse)

/-- The members of a table when all lines are read. -/
def closeMembers : List (String × Entry) → List (String × Toml)
  | [] => []
  | (key, entry) :: rest => (key, entry.close) :: closeMembers rest

/-- The rows of an array of tables when all lines are read. -/
def closeRows : List (List (String × Entry)) → List Toml
  | [] => []
  | row :: rest => .table (closeMembers row) :: closeRows rest

end

abbrev Members := Record Entry

/-- Assign a value under a dotted key. `mayAdd` tells whether the table itself may get members this
way; the tables a dotted key makes always may. -/
def assign (value : Toml) (mayAdd : Bool) : List String → Members → Option Members
  | [], _ => none
  | [key], members =>
    if mayAdd && !members.contains key then some (members ++ [(key, .value value)]) else none
  | key :: path, members =>
    match members.get? key with
    | none => (assign value true path []).map fun inner =>
        members ++ [(key, .table .dotted inner)]
    | some (.value _) => none
    | some (.table .header _) => none
    | some (.table origin inner) => (assign value (origin == .dotted) path inner).map fun inner =>
        members.insert key (.table origin inner)
    | some (.rows latest earlier) => (assign value false path latest).map fun latest =>
        members.insert key (.rows latest earlier)

/-- Change the table a header path leads to, making the tables on the way. -/
def within (change : Members → Option Members) : List String → Members → Option Members
  | [], members => change members
  | key :: path, members =>
    match members.get? key with
    | none => (within change path []).map fun inner =>
        members ++ [(key, .table .implied inner)]
    | some (.value _) => none
    | some (.table origin inner) => (within change path inner).map fun inner =>
        members.insert key (.table origin inner)
    | some (.rows latest earlier) => (within change path latest).map fun latest =>
        members.insert key (.rows latest earlier)

def declareTable (key : String) (members : Members) : Option Members :=
  match members.get? key with
  | none => some (members ++ [(key, .table .header [])])
  | some (.table .implied inner) => some (members.insert key (.table .header inner))
  | some _ => none

def declareRow (key : String) (members : Members) : Option Members :=
  match members.get? key with
  | none => some (members ++ [(key, .rows [] [])])
  | some (.rows latest earlier) => some (members.insert key (.rows [] (latest :: earlier)))
  | some _ => none

/-- The document after its lines. `path` leads to the table the last header named. -/
def interpret : List String → Members → List Line → Option Members
  | _, document, [] => some document
  | _, document, .header path :: rest => do
    let key ← path.getLast?
    let document ← within (declareTable key) path.dropLast document
    interpret path document rest
  | _, document, .row path :: rest => do
    let key ← path.getLast?
    let document ← within (declareRow key) path.dropLast document
    interpret path document rest
  | path, document, .assign key value :: rest => do
    let document ← within (assign value true key) path document
    interpret path document rest

/-- The members of an inline table with the given assignments. -/
def inlineMembers : Members → List (List String × Toml) → Option Members
  | members, [] => some members
  | members, (path, value) :: rest => do
    let members ← assign value true path members
    inlineMembers members rest

end Toml
end Arbor
