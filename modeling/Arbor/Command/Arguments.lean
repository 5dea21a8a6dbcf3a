/-! # Arguments

What a command line asks for. An argument that starts with a dash is an option, in its long form or
as a group of short ones; a lone dash is not, and after two dashes nothing is. The value of an option
may be attached to it. No option may be repeated. -/

namespace Arbor.Command

/-- How found values are shown. -/
inductive Format where
  /-- One after the other under the name of the file. -/
  | listing
  /-- All in one array. -/
  | json
  /-- Their number for each file. -/
  | count
  deriving DecidableEq

inductive Request where
  /-- Show what a selector finds below the root of each tree. -/
  | search (path selector : String) (schema : Option String) (format : Format)
  /-- Show the nodes of each tree that a selector selects. -/
  | select (path selector : String) (schema : Option String)
  /-- Show the types of a catalogue. -/
  | types (schema : Option String)
  deriving DecidableEq

/-- The options of a command that stand for themselves. -/
inductive Flag where
  | json
  | count
  deriving DecidableEq

/-- Arguments read so far. -/
structure Arguments where
  positionals : List String
  schema : Option String
  flags : List Flag
  /-- The next argument is the value of an option. -/
  awaiting : Bool
  /-- Only plain arguments are left. -/
  closed : Bool

namespace Arguments

def start : Arguments := ⟨[], none, [], false, false⟩

def addPositional (arguments : Arguments) (text : String) : Arguments :=
  { arguments with positionals := arguments.positionals ++ [text] }

def setSchema? (arguments : Arguments) (path : String) : Option Arguments :=
  if arguments.schema.isSome || path.isEmpty then none
  else some { arguments with schema := path, awaiting := false }

def awaitSchema (arguments : Arguments) : Arguments := { arguments with awaiting := true }

def setFlag? (known : List Flag) (arguments : Arguments) (flag : Flag) : Option Arguments :=
  if known.contains flag && !arguments.flags.contains flag then
    some { arguments with flags := flag :: arguments.flags }
  else none

/-- Read an option in its long form, without the dashes. -/
def long? (known : List Flag) (arguments : Arguments) (body : List Char) : Option Arguments :=
  let name := String.ofList (body.takeWhile (· != '='))
  match name, body.dropWhile (· != '=') with
  | "schema", [] => some arguments.awaitSchema
  | "schema", _ :: value => arguments.setSchema? (String.ofList value)
  | "json", [] => setFlag? known arguments .json
  | "count", [] => setFlag? known arguments .count
  | _, _ => none

/-- Read a group of short options, without the dash. What follows an option with a value is the
value, an equals sign before it not counted. -/
def short? (known : List Flag) (arguments : Arguments) : List Char → Option Arguments
  | [] => some arguments
  | 'j' :: rest => (setFlag? known arguments .json).bind (short? known · rest)
  | 'c' :: rest => (setFlag? known arguments .count).bind (short? known · rest)
  | 's' :: [] => some arguments.awaitSchema
  | 's' :: '=' :: value => arguments.setSchema? (String.ofList value)
  | 's' :: value => arguments.setSchema? (String.ofList value)
  | _ => none

def plain? (arguments : Arguments) (text : String) : Option Arguments :=
  if arguments.awaiting then arguments.setSchema? text else some (arguments.addPositional text)

def read? (known : List Flag) (arguments : Arguments) (text : String) : Option Arguments :=
  if arguments.closed then some (arguments.addPositional text)
  else match text.toList with
    | ['-'] => arguments.plain? text
    | ['-', '-'] =>
      if arguments.awaiting then none else some { arguments with closed := true }
    | '-' :: '-' :: body => if arguments.awaiting then none else long? known arguments body
    | '-' :: body => if arguments.awaiting then none else short? known arguments body
    | _ => arguments.plain? text

def readAll? (known : List Flag) (texts : List String) : Option Arguments :=
  match texts.foldlM (read? known) start with
  | some arguments => if arguments.awaiting then none else some arguments
  | none => none

def format (arguments : Arguments) : Format :=
  if arguments.flags.contains .json then .json
  else if arguments.flags.contains .count then .count
  else .listing

end Arguments

namespace Request

/-- The search the arguments ask for. The path may not be empty. -/
def search? (texts : List String) : Option Request :=
  match Arguments.readAll? [.json, .count] texts with
  | some arguments => match arguments.positionals with
    | [path, selector] =>
      if path.isEmpty then none
      else some (.search path selector arguments.schema arguments.format)
    | _ => none
  | none => none

/-- The selection the arguments ask for. The path may not be empty. -/
def select? (texts : List String) : Option Request :=
  match Arguments.readAll? [] texts with
  | some arguments => match arguments.positionals with
    | [path, selector] =>
      if path.isEmpty then none else some (.select path selector arguments.schema)
    | _ => none
  | none => none

def types? (texts : List String) : Option Request :=
  match Arguments.readAll? [] texts with
  | some arguments => if arguments.positionals.isEmpty then some (.types arguments.schema) else none
  | none => none

def read? : List String → Option Request
  | "search" :: texts => search? texts
  | "matches" :: texts => select? texts
  | "types" :: texts => types? texts
  | _ => none

end Request
end Arbor.Command
