import Arbor.Command.Run

/-! # The command line

Runs commands on the disk. Output is coloured on a terminal, unless the environment asks for none. -/

namespace Arbor.Command

/-- The reading error an input fault stands for. -/
def FileError.ofFault : IO.Error → FileError
  | .noFileOrDirectory _ _ _ => .missing
  | .noSuchThing _ _ _ => .missing
  | .inappropriateType _ _ _ => .notAFolder
  | .invalidArgument _ _ _ => .tooLong
  | .permissionDenied _ _ _ => .other "Permission denied (os error 13)"
  | .userError _ => .other "stream did not contain valid UTF-8"
  | fault => .other (toString fault)

/-- What a path leads to on the disk, seen from the working folder. -/
def diskKind? (path : String) : IO (Option FileKind) := do
  try
    match (← ((← IO.currentDir) / path).metadata).type with
    | .dir => pure (some .folder)
    | .file => pure (some .file)
    | _ => pure none
  catch _ => pure none

def diskRead (path : String) : IO (Except FileError String) := do
  if let some error := pathFault? path then return .error error
  if (← diskKind? path) = some .folder then return .error .isAFolder
  try
    return .ok (← IO.FS.readFile path)
  catch fault => return .error (FileError.ofFault fault)

/-- The files at all levels below a folder on the disk. Folders that cannot be read are passed
over. -/
partial def diskFilesBelow (path : String) : IO (List (List String)) := do
  let entries ← try ((← IO.currentDir) / path).readDir catch _ => pure #[]
  let found ← entries.toList.mapM fun entry => do
    match (← entry.path.symlinkMetadata).type with
    | .file => pure [[entry.fileName]]
    | .dir => do
      let below ← diskFilesBelow (joinPath path entry.fileName)
      pure (below.map (entry.fileName :: ·))
    | _ => pure []
  return found.flatten

def disk : FileSystem IO := ⟨diskKind?, diskRead, diskFilesBelow⟩

end Arbor.Command

def main (arguments : List String) : IO UInt32 := do
  let stdout ← IO.getStdout
  let stderr ← IO.getStderr
  let coloured := (← stdout.isTty) && (← IO.getEnv "NO_COLOR").isNone
  let outcome ← Arbor.Command.run Arbor.Command.disk coloured arguments
  stdout.putStr outcome.output
  stderr.putStr outcome.errors
  return outcome.code.toUInt32
