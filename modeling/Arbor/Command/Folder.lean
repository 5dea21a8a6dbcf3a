import Arbor.Command.Files

/-! # Folders in memory

A folder as the list of all files below it, and of folders that may be empty. Paths lead into it by
names between slashes; a dot stays where it is and two dots go back up. What lies around the folder
is a folder too, of whose files none are known. -/

namespace Arbor.Command

/-- A folder held in memory. -/
structure Folder where
  /-- The files, each with the names that lead to it and its text. -/
  files : List (List String × String)
  /-- Folders that are there even without files. -/
  folders : List (List String)

namespace Folder

def splitPath (path : String) : List String :=
  (path.toList.splitOn '/').map String.ofList

/-- The names that stay when dots are followed: one stays where it is and two go back up. -/
def plainNames (names : List String) : List String :=
  names.foldl (fun taken next =>
    if next == "" || next == "." then taken
    else if next == ".." then taken.dropLast
    else taken ++ [next]) []

/-- The folder with the given files, and with the folders on the way to each. A path that ends with a
slash is that of a folder. -/
def ofEntries (entries : List (String × String)) : Folder where
  files := entries.filterMap fun (path, text) =>
    let names := splitPath path
    if names.getLast? = some "" then none else some (plainNames names, text)
  folders := entries.flatMap fun (path, _) =>
    let names := splitPath path
    (List.range names.length).map fun n => plainNames (names.take n)

def text? (folder : Folder) (names : List String) : Option String := folder.files.lookup names

def kindAt? (folder : Folder) (names : List String) : Option FileKind :=
  if (folder.text? names).isSome then some .file
  else if names.isEmpty || folder.folders.any names.isPrefixOf
      || folder.files.any fun (other, _) => names.isPrefixOf other then some .folder
  else none

/-- Where a path has led so far. -/
inductive Place where
  /-- To names that lead from the folder to what is in it. -/
  | inside (names : List String)
  /-- To a folder around it. -/
  | around
  deriving DecidableEq

def kindOf? (folder : Folder) : Place → Option FileKind
  | .inside names => folder.kindAt? names
  | .around => some .folder

def Place.up : Place → Place
  | .inside [] => .around
  | .inside names => .inside names.dropLast
  | .around => .around

/-- Look for a name in the folder at a place. -/
def Place.down (place : Place) (name : String) : Except FileError Place :=
  if nameLimit < name.utf8ByteSize then .error .tooLong
  else match place with
    | .inside names => .ok (.inside (names ++ [name]))
    | .around => .error .missing

/-- Go on from a place by one more name. -/
def walk (folder : Folder) (place : Place) (next : String) : Except FileError Place :=
  match folder.kindOf? place with
  | none => .error .missing
  | some .file => .error .notAFolder
  | some .folder =>
    if next == "" || next == "." then .ok place
    else if next == ".." then .ok place.up
    else place.down next

/-- The place a path leads to, and what is there. A path that begins with a slash starts around the
folder. -/
def resolve (folder : Folder) (path : String) : Except FileError (Place × FileKind) :=
  match pathFault? path with
  | some error => .error error
  | none =>
    let start := if path.toList.head? = some '/' then .around else .inside []
    match (splitPath path).foldlM folder.walk start with
    | .error error => .error error
    | .ok place => match folder.kindOf? place with
      | some kind => .ok (place, kind)
      | none => .error .missing

def read (folder : Folder) (path : String) : Except FileError String :=
  match folder.resolve path with
  | .error error => .error error
  | .ok (.inside names, .file) => match folder.text? names with
    | some text => .ok text
    | none => .error .missing
  | .ok _ => .error .isAFolder

def filesBelow (folder : Folder) (path : String) : List (List String) :=
  match folder.resolve path with
  | .ok (.inside names, .folder) =>
    (folder.files.filter fun (other, _) => names.isPrefixOf other).map fun (other, _) =>
      other.drop names.length
  | _ => []

def fileSystem (folder : Folder) : FileSystem Id where
  kind? path := match folder.resolve path with
    | .ok (_, kind) => some kind
    | .error _ => none
  read := folder.read
  filesBelow := folder.filesBelow

end Folder
end Arbor.Command
