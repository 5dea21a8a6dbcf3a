import Arbor.Catalogue.Error
import Arbor.Selector.Parser

/-! # Faults of queries

Why a query has no answer. -/

namespace Arbor

/-- Why a query has no answer. -/
inductive QueryError where
  | invalidSelector (input : String) (problem : Selector.Problem)
  | unknownType (name : String) (hint : Option String)
  | noMatch
  | ambiguousMatch (count : Nat)
  deriving DecidableEq

def QueryError.message : QueryError → String
  | .invalidSelector input problem => "invalid selector '" ++ input ++ "': " ++ problem.message
  | .unknownType name hint => "unknown type '" ++ name ++ "' in selector" ++ suggestion hint
  | .noMatch => "selector matched 0 values"
  | .ambiguousMatch count => "selector matched " ++ toString count ++ " values, expected exactly 1"

def Selector.parse (text : String) : Except QueryError Selector :=
  match Selector.read text with
  | .ok selector => .ok selector
  | .error problem => .error (.invalidSelector text problem)

end Arbor
