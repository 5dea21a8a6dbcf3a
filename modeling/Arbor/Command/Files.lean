/-! # Files

How commands see files. Commands run over any such view: the disk, or a folder held in memory. -/

namespace Arbor.Command

/-- What a path leads to. -/
inductive FileKind where
  | file
  | folder
  deriving DecidableEq

/-- Why a file cannot be read. -/
inductive FileError where
  | missing
  /-- Part of the path is a file. -/
  | notAFolder
  | isAFolder
  /-- The path or a name of it is too long. -/
  | tooLong
  /-- The path holds the character that ends paths. -/
  | cutShort
  | other (message : String)
  deriving DecidableEq

def FileError.message : FileError → String
  | .missing => "No such file or directory (os error 2)"
  | .notAFolder => "Not a directory (os error 20)"
  | .isAFolder => "Is a directory (os error 21)"
  | .tooLong => "File name too long (os error 36)"
  | .cutShort => "file name contained an unexpected NUL byte"
  | .other message => message

/-- The longest path, in bytes. -/
def pathLimit : Nat := 4095

/-- The longest name in a folder, in bytes. -/
def nameLimit : Nat := 255

/-- What is wrong with a path wherever it leads. -/
def pathFault? (path : String) : Option FileError :=
  if path.toList.contains '\x00' then some .cutShort
  else if path.isEmpty then some .missing
  else if pathLimit < path.utf8ByteSize then some .tooLong
  else none

/-- A view of files. -/
structure FileSystem (m : Type → Type) where
  /-- What a path leads to, if anything. -/
  kind? : String → m (Option FileKind)
  /-- The text of a file. -/
  read : String → m (Except FileError String)
  /-- The files at all levels below a folder, as the names that lead to each. -/
  filesBelow : String → m (List (List String))

def joinPath (folder name : String) : String :=
  if folder.toList.getLast? = some '/' then folder ++ name else folder ++ "/" ++ name

/-- The order of paths: name by name, so that what is in a folder comes before its neighbours that
start like it. -/
def pathBefore : List String → List String → Bool
  | [], _ => true
  | _ :: _, [] => false
  | a :: as, b :: bs => if a == b then pathBefore as bs else a < b

/-- The names end in one of a JSON document. A name that is all extension has none. -/
def isDocument (names : List String) : Bool :=
  match names.getLast? with
  | some name => ".json".toList.isSuffixOf name.toList && name != ".json"
  | none => false

end Arbor.Command
