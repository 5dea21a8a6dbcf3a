import Arbor.Decimal.Double
import Arbor.Record

/-! # JSON values

The values of the JSON data format. Objects keep the order of their members, and whole numbers are
kept apart from doubles because the two are written differently. -/

namespace Arbor

/-- A JSON number: a whole number, or a double. -/
inductive Json.Number where
  | int (n : Int)
  | double (x : Float)

inductive Json where
  | null
  | bool (b : Bool)
  | number (n : Json.Number)
  | string (s : String)
  | array (items : List Json)
  | object (members : List (String × Json))
  deriving Inhabited

def Json.Number.toFloat : Json.Number → Float
  | .int n => Decimal.ofInt n
  | .double x => x

/-- A number as JSON: whole numbers within the safe bound as such, other finite numbers as doubles,
and null for what JSON cannot write. -/
def Json.ofFloat (x : Float) : Json :=
  match Decimal.safeInt? x with
  | some n => .number (.int n)
  | none => match Decimal.Double.ofFloat x with
    | .finite _ _ _ => .number (.double x)
    | _ => .null

def Json.string? : Json → Option String
  | .string s => some s
  | _ => none

end Arbor
