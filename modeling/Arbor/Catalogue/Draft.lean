import Arbor.Catalogue.Basic
import Arbor.Catalogue.Declaration
import Arbor.Catalogue.Error
import Arbor.Record

/-! # Compiling catalogues

A draft collects declarations, with an index of the types by name. Declaring a type needs its base
to be there already; everything else is checked when the draft is compiled, so fields may accept types that are declared later. Compiling
resolves the members of categories, then the fields of each type in turn: a type starts with the
fields of its base, and a field it declares replaces the one of that name or goes to the end. -/

namespace Arbor

/-- A type under its number, before its fields are compiled. -/
structure Draft.Entry where
  name : String
  base : Option TypeId
  isAbstract : Bool
  fields : List FieldDecl

/-- Declarations collected so far. -/
structure Draft where
  name : String
  types : Array Draft.Entry
  /-- The number of each type, under its name. -/
  index : Record TypeId
  categories : List (String × List String)

namespace Draft

/-- The draft with the root type only. -/
def new (name : String) : Draft :=
  ⟨name, #[⟨rootTypeName, none, true, []⟩], [(rootTypeName, ⟨0⟩)], []⟩

/-- Declare a type that extends the base of the given name. -/
def describe (draft : Draft) (base : String) (decl : TypeDecl) :
    Except CatalogueError (TypeId × Draft) :=
  match draft.index.get? base with
  | none => .error (.unknownBase decl.name base (Text.closest? base draft.index.keys))
  | some baseId =>
    if draft.index.contains decl.name then .error (.duplicateType decl.name)
    else
      let id : TypeId := ⟨draft.types.size⟩
      let entry : Entry := ⟨decl.name, some baseId, decl.isAbstract, decl.fields⟩
      .ok (id, { draft with
        types := draft.types.push entry, index := draft.index.insert decl.name id })

def category (draft : Draft) (name : String) (members : List String) : Draft :=
  { draft with categories := draft.categories ++ [(name, members)] }

/-- What the names in declarations refer to. -/
structure Scope where
  types : Record TypeId
  categories : Record CategoryId
  /-- All names, for suggestions. -/
  known : List String

namespace Scope

/-- The entry a name in an accept list stands for. -/
def accept? (scope : Scope) (name : String) : Option Accept :=
  match name with
  | "null" => some .null
  | "undefined" => some .undefined
  | name => match PrimitiveKind.ofName? name with
    | some kind => some (.primitive kind)
    | none => match scope.types.get? name with
      | some id => some (.type id)
      | none => (scope.categories.get? name).map .category

def accepts (scope : Scope) (type field : String) :
    List String → Except CatalogueError (List Accept)
  | [] => .ok []
  | name :: rest =>
    match scope.accept? name with
    | none => .error (.unresolvedAccept type field name (Text.closest? name scope.known))
    | some entry => (scope.accepts type field rest).map (entry :: ·)

end Scope

/-- The kind of a field with the given entries. -/
def fieldKind (type : String) (decl : FieldDecl) (entries : List Accept) :
    Except CatalogueError FieldKind :=
  let nodes := entries.any Accept.isNode
  let primitives := entries.any Accept.isPrimitive
  if decl.list then
    if primitives || !decl.oneOf.isEmpty then .error (.invalidListAccepts type decl.name)
    else if nodes then .ok .list
    else .error (.emptyAccepts type decl.name)
  else if !decl.oneOf.isEmpty then
    if nodes || primitives then .error (.mixedAccepts type decl.name) else .ok .strict
  else if nodes && primitives then .error (.mixedAccepts type decl.name)
  else if nodes then .ok .node
  else if primitives then .ok .native
  else .error (.emptyAccepts type decl.name)

/-- What a field without a declared default reads as: null where it is accepted, false for a field
of booleans only, and undefined otherwise. -/
def impliedDefault (field : Field) : Scalar :=
  if field.kind = .list then .undefined
  else if field.admitsNull then .null
  else match field.kind, field.accepts with
    | .native, [.primitive .boolean] => .boolean false
    | _, _ => .undefined

/-- The field with its default. A declared default must be one that can be assigned. -/
def withDefault (type : String) (decl : FieldDecl) (field : Field) :
    Except CatalogueError Field :=
  match decl.default with
  | none => .ok { field with default := impliedDefault field }
  | some literal =>
    let holdsScalars := field.kind = .native || field.kind = .strict
    if holdsScalars && field.admitsScalar literal.toScalar then
      .ok { field with default := literal.toScalar }
    else .error (.invalidDefault type decl.name literal.display)

def acceptLabel (decl : FieldDecl) : String :=
  "|".intercalate (decl.accepts ++ decl.oneOf.map Literal.display)

def compileField (scope : Scope) (type : String) (decl : FieldDecl) :
    Except CatalogueError Field :=
  match scope.accepts type decl.name decl.accepts with
  | .error error => .error error
  | .ok entries =>
    match fieldKind type decl entries with
    | .error error => .error error
    | .ok kind =>
      let literals := decl.oneOf.map fun literal => Accept.literal literal.toScalar
      withDefault type decl
        ⟨decl.name, kind, entries ++ literals, acceptLabel decl, .undefined⟩

/-- Put a field in the place of the one of its name, or at the end. -/
def overlay (field : Field) : List Field → List Field
  | [] => [field]
  | other :: rest =>
    if other.name == field.name then field :: rest else other :: overlay field rest

/-- Add declared fields to those of the base. `own` holds the names declared so far. -/
def compileFields (scope : Scope) (type : String) (own : List String) (fields : List Field) :
    List FieldDecl → Except CatalogueError (List Field)
  | [] => .ok fields
  | decl :: rest =>
    if own.contains decl.name then .error (.duplicateField type decl.name)
    else match compileField scope type decl with
      | .error error => .error error
      | .ok field => compileFields scope type (decl.name :: own) (overlay field fields) rest

/-- Compile types one after the other, with those compiled before at hand. -/
def compileTypes (scope : Scope) (types : Array NodeType) :
    List Entry → Except CatalogueError (Array NodeType)
  | [] => .ok types
  | entry :: rest =>
    let inherited := ((entry.base.bind fun id => types[id.index]?).map (·.fields)).getD []
    match compileFields scope entry.name [] inherited entry.fields with
    | .error error => .error error
    | .ok fields =>
      compileTypes scope (types.push ⟨entry.name, entry.base, entry.isAbstract, fields⟩) rest

def compileMembers (scope : Scope) (category : String) :
    List String → Except CatalogueError (List TypeId)
  | [] => .ok []
  | member :: rest =>
    match scope.types.get? member with
    | none => .error (.unknownCategoryMember category member (Text.closest? member scope.known))
    | some id => (compileMembers scope category rest).map (id :: ·)

/-- Compile categories one after the other; no two may share a name, nor one with a type. -/
def compileCategories (scope : Scope) (categories : Array Category) :
    List (String × List String) → Except CatalogueError (Array Category)
  | [] => .ok categories
  | (name, members) :: rest =>
    if scope.types.contains name || categories.any (·.name == name) then
      .error (.duplicateCategory name)
    else match compileMembers scope name members with
      | .error error => .error error
      | .ok members => compileCategories scope (categories.push ⟨name, members⟩) rest

/-- Names with the numbers of their places. -/
def numbered {α : Type} (number : Nat → α) (names : List String) : Record α :=
  names.mapIdx fun place name => (name, number place)

/-- The scope of a draft. Types are looked up in its index; categories have the numbers of their
places. -/
def scope (draft : Draft) : Scope :=
  let categories := draft.categories.map (·.1)
  ⟨draft.index, numbered CategoryId.mk categories, draft.index.keys ++ categories⟩

def compile (draft : Draft) : Except CatalogueError Catalogue :=
  match compileCategories draft.scope #[] draft.categories with
  | .error error => .error error
  | .ok categories =>
    match compileTypes draft.scope #[] draft.types.toList with
    | .error error => .error error
    | .ok types => .ok ⟨draft.name, types, categories⟩

def describeAll (draft : Draft) : List TypeDecl → Except CatalogueError Draft
  | [] => .ok draft
  | decl :: rest =>
    match draft.describe (decl.base.getD rootTypeName) decl with
    | .error error => .error error
    | .ok (_, draft) => draft.describeAll rest

/-- The draft of a declared catalogue. Categories are numbered in the order of their names. -/
def ofDecl (decl : CatalogueDecl) : Except CatalogueError Draft :=
  let categories := decl.categories.mergeSort fun a b => !(b.1 < a.1)
  let draft := categories.foldl (fun draft entry => draft.category entry.1 entry.2)
    (Draft.new decl.name)
  draft.describeAll decl.types

end Draft

def Catalogue.ofDecl (decl : CatalogueDecl) : Except CatalogueError Catalogue :=
  match Draft.ofDecl decl with
  | .error error => .error error
  | .ok draft => draft.compile

end Arbor
