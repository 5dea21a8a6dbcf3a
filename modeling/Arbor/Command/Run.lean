import Arbor.Catalogue.Estree
import Arbor.Catalogue.Reader
import Arbor.Command.Arguments
import Arbor.Command.Failure
import Arbor.Command.Files
import Arbor.Command.Style
import Arbor.Query.Search
import Arbor.Tree.Build

/-! # Running commands

A command reads a catalogue and trees through a view of files and makes output. Trees are read one
file at a time, and a failure ends the command; what was put out before stays. Identities run on from
one file to the next. -/

namespace Arbor.Command

/-- What a command leaves behind. -/
structure Outcome where
  /-- Zero for success, one for failure, and two for a command line that is not understood. -/
  code : Nat
  output : String
  errors : String

/-- The outcome of a command line that is not understood. -/
def Outcome.misuse : Outcome := ⟨2, "", ""⟩

/-- Lines put out so far, how the command is going, and how the output is coloured. -/
structure Progress where
  lines : List String
  /-- The number of values or nodes shown or counted. -/
  total : Nat
  /-- Values found so far, for output in one array. -/
  collected : List Json
  /-- The identity the next node gets. -/
  nextUid : Nat

namespace Progress

def start : Progress := ⟨[], 0, [], 1⟩

def put (progress : Progress) (lines : List String) : Progress :=
  { progress with lines := progress.lines ++ lines }

def output (progress : Progress) : String := String.join (progress.lines.map (· ++ "\n"))

def finish (progress : Progress) : Option Failure → Outcome
  | none => ⟨0, progress.output, ""⟩
  | some failure => ⟨1, progress.output, failure.text⟩

end Progress

section

variable {m : Type → Type} [Monad m]

def readCatalogue (files : FileSystem m) (path : String) :
    m (Except CatalogueError Catalogue) := do
  match ← files.read path with
  | .ok text => pure (Catalogue.parseFile path text)
  | .error error => pure (.error (.unreadable path error.message))

/-- The catalogue of a file, or the bundled one. -/
def loadCatalogue (files : FileSystem m) (schema : Option String) :
    m (Except Failure Catalogue) :=
  match schema with
  | none => pure (Catalogue.estree.mapError Failure.ofCatalogue)
  | some path => do
    pure ((← readCatalogue files path).mapError Failure.ofCatalogue)

/-- The documents a path stands for: itself, or all those below it in order. -/
def collectInputs (files : FileSystem m) (path : String) : m (Except Failure (List String)) := do
  match ← files.kind? path with
  | none => pure (.error ⟨"No such file or directory: " ++ path, []⟩)
  | some .file => pure (.ok [path])
  | some .folder => do
    let found := (← files.filesBelow path).filter isDocument
    if found.isEmpty then pure (.error ⟨"No .json files found in " ++ path, []⟩)
    else
      let ordered := found.mergeSort pathBefore
      pure (.ok (ordered.map fun names => joinPath path ("/".intercalate names)))

/-- A tree and the root it was read into. -/
structure Loaded (catalogue : Catalogue) where
  tree : Tree catalogue
  root : Handle

/-- The tree of a text. The value it describes must be a node or list. -/
def buildTree (catalogue : Catalogue) (firstUid : Nat) (path text : String) :
    Except Failure (Loaded catalogue) :=
  match Tree.parse text (Tree.empty catalogue firstUid) with
  | (.error error, _) => .error ⟨"failed to build " ++ path, error.message :: error.causes⟩
  | (.ok value, tree) => match value.handle? with
    | some root => .ok ⟨tree, root⟩
    | none => .error ⟨path ++ " does not hold a tree (found " ++ value.display ++ ")", []⟩

def loadTree (files : FileSystem m) (catalogue : Catalogue) (firstUid : Nat) (path : String) :
    m (Except Failure (Loaded catalogue)) := do
  match ← files.read path with
  | .ok text => pure (buildTree catalogue firstUid path text)
  | .error error => pure (.error ⟨"failed to read " ++ path, [error.message]⟩)

/-- Read files one after the other and let each change the progress. -/
def overFiles (files : FileSystem m) (catalogue : Catalogue)
    (use : String → Loaded catalogue → Progress → Except Failure Progress) :
    List String → Progress → m (Progress × Option Failure)
  | [], progress => pure (progress, none)
  | path :: rest, progress => do
    match ← loadTree files catalogue progress.nextUid path with
    | .error failure => pure (progress, some failure)
    | .ok loaded =>
      match use path loaded { progress with nextUid := loaded.tree.nextUid } with
      | .error failure => pure (progress, some failure)
      | .ok progress => overFiles files catalogue use rest progress

end

section

variable {catalogue : Catalogue}

/-- The entry of a found value in one array. -/
def foundEntry (path : String) (tree : Tree catalogue) (value : Value) : Json :=
  .object
    [("file", .string path),
     ("uid", match tree.identity? value with
        | some uid => .number (.int uid)
        | none => .null),
     ("value", tree.valueToJson value)]

def foundLines (coloured : Bool) (tree : Tree catalogue) (value : Value) : List String :=
  ["  " ++ Style.green.paint coloured (tree.describe value),
   "    " ++ Style.dimmed.paint coloured (tree.valueToJson value).compact]

def searchLines (coloured : Bool) (format : Format) (path : String) (tree : Tree catalogue)
    (found : List Value) : List String :=
  match format with
  | .json => []
  | .count => [path ++ ": " ++ toString found.length]
  | .listing =>
    if found.isEmpty then []
    else Style.bold.paint coloured path :: found.flatMap (foundLines coloured tree)

def searchFile (coloured : Bool) (format : Format) (selector : Selector) (path : String)
    (loaded : Loaded catalogue) (progress : Progress) : Except Failure Progress :=
  match loaded.tree.searchSelector loaded.root selector with
  | .error error => .error (Failure.ofQuery error)
  | .ok found =>
    let entries := if format = .json then found.map (foundEntry path loaded.tree) else []
    .ok { progress.put (searchLines coloured format path loaded.tree found) with
      total := progress.total + found.length
      collected := progress.collected ++ entries }

def noMatches (coloured : Bool) (progress : Progress) : List String :=
  if progress.total = 0 then [Style.yellow.paint coloured "No matches"] else []

/-- The last lines of a search through the given number of files. -/
def searchSummary (coloured : Bool) (format : Format) (files : Nat) (progress : Progress) :
    List String :=
  match format with
  | .json => [(Json.array progress.collected).pretty]
  | .count =>
    if files > 1 then [Style.bold.paint coloured ("total: " ++ toString progress.total)] else []
  | .listing => noMatches coloured progress

def selectLines (coloured : Bool) (path : String) (tree : Tree catalogue)
    (selected : List NodeId) : List String :=
  if selected.isEmpty then []
  else Style.bold.paint coloured path
    :: selected.map fun id => "  " ++ Style.green.paint coloured (tree.describe (.node id))

def selectFile (coloured : Bool) (selector : String) (path : String)
    (loaded : Loaded catalogue) (progress : Progress) : Except Failure Progress :=
  match loaded.tree.matching selector with
  | .error error => .error (Failure.ofQuery error)
  | .ok selected =>
    .ok { progress.put (selectLines coloured path loaded.tree selected) with
      total := progress.total + selected.length }

end

def kindLabel : FieldKind → String
  | .node => "node"
  | .list => "list"
  | .native => "native"
  | .strict => "strict"

def defaultText : Scalar → String
  | .undefined => ""
  | scalar => " = " ++ scalar.display

def fieldLine (coloured : Bool) (field : Field) : String :=
  "  " ++ Style.cyan.paint coloured field.name
    ++ " " ++ Style.dimmed.paint coloured (kindLabel field.kind)
    ++ " " ++ field.label
    ++ Style.dimmed.paint coloured (defaultText field.default)

/-- The lines of a type, of which there are none for an abstract one. -/
def typeLines (coloured : Bool) (catalogue : Catalogue) (id : TypeId) : List String :=
  match catalogue.type? id with
  | none => []
  | some type =>
    if type.isAbstract then []
    else
      let name := Style.bold.paint coloured type.name
      let line := match (catalogue.ancestors id).map catalogue.typeName with
        | [] => name
        | names => name ++ " " ++ Style.dimmed.paint coloured ("< " ++ " < ".intercalate names)
      line :: type.fields.map (fieldLine coloured)

def categoryLine (coloured : Bool) (catalogue : Catalogue) (category : Category) : String :=
  let members := ", ".intercalate (category.members.map catalogue.typeName)
  "  " ++ Style.cyan.paint coloured category.name ++ " " ++ Style.dimmed.paint coloured members

def catalogueLines (coloured : Bool) (catalogue : Catalogue) : List String :=
  let types := (List.range catalogue.types.size).flatMap fun n =>
    typeLines coloured catalogue ⟨n⟩
  let categories := catalogue.categories.toList
  [Style.bold.paint coloured "Catalogue:" ++ " " ++ catalogue.name, ""] ++ types
    ++ if categories.isEmpty then []
      else ["", Style.bold.paint coloured "Categories:"]
        ++ categories.map (categoryLine coloured catalogue)

section

variable {m : Type → Type} [Monad m]

/-- The catalogue and the documents a command works on. -/
def prepare (files : FileSystem m) (schema : Option String) (path : String) :
    m (Except Failure (Catalogue × List String)) := do
  match ← loadCatalogue files schema with
  | .error failure => pure (.error failure)
  | .ok catalogue => do
    match ← collectInputs files path with
    | .error failure => pure (.error failure)
    | .ok paths => pure (.ok (catalogue, paths))

def runSearch (files : FileSystem m) (coloured : Bool) (path text : String)
    (schema : Option String) (format : Format) : m Outcome :=
  match Selector.parse text with
  | .error error => pure (Progress.start.finish (some (Failure.ofQuery error)))
  | .ok selector => do
    match ← prepare files schema path with
    | .error failure => pure (Progress.start.finish (some failure))
    | .ok (catalogue, paths) => do
      match ← overFiles files catalogue (searchFile coloured format selector) paths
          Progress.start with
      | (progress, some failure) => pure (progress.finish (some failure))
      | (progress, none) =>
        let summary := searchSummary coloured format paths.length progress
        pure ((progress.put summary).finish none)

def runSelect (files : FileSystem m) (coloured : Bool) (path text : String)
    (schema : Option String) : m Outcome :=
  match Selector.parse text with
  | .error error => pure (Progress.start.finish (some (Failure.ofQuery error)))
  | .ok _ => do
    match ← prepare files schema path with
    | .error failure => pure (Progress.start.finish (some failure))
    | .ok (catalogue, paths) => do
      match ← overFiles files catalogue (selectFile coloured text) paths Progress.start with
      | (progress, some failure) => pure (progress.finish (some failure))
      | (progress, none) => pure ((progress.put (noMatches coloured progress)).finish none)

def runTypes (files : FileSystem m) (coloured : Bool) (schema : Option String) : m Outcome := do
  match ← loadCatalogue files schema with
  | .error failure => pure (Progress.start.finish (some failure))
  | .ok catalogue => pure ((Progress.start.put (catalogueLines coloured catalogue)).finish none)

def run (files : FileSystem m) (coloured : Bool) (arguments : List String) : m Outcome :=
  match Request.read? arguments with
  | none => pure Outcome.misuse
  | some (.search path selector schema format) =>
    runSearch files coloured path selector schema format
  | some (.select path selector schema) => runSelect files coloured path selector schema
  | some (.types schema) => runTypes files coloured schema

end

end Arbor.Command
