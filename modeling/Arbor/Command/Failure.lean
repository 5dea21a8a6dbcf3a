import Arbor.Query.Error
import Arbor.Tree.Error

/-! # Failures

What a command reports when it gives up: a message, and what it goes back to, outermost first. A
single cause is indented; several are numbered. -/

namespace Arbor.Command

/-- Why a command gave up. -/
structure Failure where
  message : String
  causes : List String

namespace Failure

def ofCatalogue (error : CatalogueError) : Failure := ⟨error.message, error.causes⟩

def ofQuery (error : QueryError) : Failure := ⟨error.message, []⟩

/-- The text with its lines after the first indented. -/
def indentLines (width : Nat) (text : String) : String :=
  String.ofList (text.toList.flatMap fun c =>
    if c = '\n' then '\n' :: List.replicate width ' ' else [c])

/-- One of several causes, with its number set flush right. -/
def numbered (cause : String) (n : Nat) : String :=
  let digits := toString n
  String.ofList ('\n' :: List.replicate (5 - digits.length) ' ') ++ digits ++ ": "
    ++ indentLines 7 cause

def causesText : List String → String
  | [] => ""
  | [cause] => "\n\nCaused by:\n    " ++ indentLines 4 cause
  | causes => "\n\nCaused by:" ++ String.join (causes.mapIdx fun n cause => numbered cause n)

def text (failure : Failure) : String :=
  "Error: " ++ failure.message ++ causesText failure.causes ++ "\n"

end Failure
end Arbor.Command
