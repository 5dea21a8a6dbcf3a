import Arbor.Selector.Basic
import Arbor.Text.Alphanumeric
import Arbor.Text.Blank

/-! # Reading selectors

A selector is chains with commas between them. A chain starts with an optional combinator; its parts
are joined by combinators or plain blanks. A part is a tag or a star, then tests: `#type`, `.field`,
`[attribute]` and `:pseudo`, of which there may be none if there is a tag or a star. A tag that
starts with an upper-case letter and comes without a type is itself the type.

Each reader takes the text from where it starts to read, and returns what it read and the rest of
the text. -/

namespace Arbor.Selector

/-- Why a text is no selector. -/
inductive Problem where
  | unexpected (c : Char)
  | expectedPart (found : Option Char)
  | expectedTypeName
  | expectedFieldName
  | expectedAttributeName
  | expectedOperator (name : String)
  | unterminatedAttribute
  | expectedPseudoName
  | unterminatedArgument (name : String)
  | unterminatedString
  deriving DecidableEq

def Problem.message : Problem → String
  | .unexpected c => "unexpected character '" ++ c.toString ++ "'"
  | .expectedPart (some c) => "expected a selector, found '" ++ c.toString ++ "'"
  | .expectedPart none => "expected a selector"
  | .expectedTypeName => "expected a type name after '#'"
  | .expectedFieldName => "expected a field name after '.'"
  | .expectedAttributeName => "expected an attribute name"
  | .expectedOperator name => "expected an operator or ']' after '" ++ name ++ "'"
  | .unterminatedAttribute => "unterminated attribute"
  | .expectedPseudoName => "expected a pseudo-class name after ':'"
  | .unterminatedArgument name => "unterminated argument to ':" ++ name ++ "'"
  | .unterminatedString => "unterminated string"

namespace Parser

open Text

/-- What a reader returns: what it read and the rest of the text, or a problem. -/
abbrev Reading (α : Type) := Except Problem (α × List Char)

def isNameChar (c : Char) : Bool := isAlphanumeric c || c == '_' || c == '$' || c == '-'

/-- A name, possibly empty. A dollar sign that starts an operator ends it. -/
def nameChars : List Char → List Char × List Char
  | [] => ([], [])
  | c :: rest =>
    if isNameChar c && !(c == '$' && rest.head? == some '=') then
      let (name, rest) := nameChars rest
      (c :: name, rest)
    else ([], c :: rest)

/-- A name of at least one character. -/
def name (problem : Problem) (cs : List Char) : Reading String :=
  match nameChars cs with
  | ([], _) => .error problem
  | (name, rest) => .ok (String.ofList name, rest)

/-- A combinator other than the plain blank. -/
def combinator? : List Char → Option (Combinator × List Char)
  | '~' :: '>' :: rest => some (.outsideBlocks, rest)
  | '=' :: '>' :: rest => some (.outsideFunctions, rest)
  | '>' :: '>' :: rest => some (.outsideClasses, rest)
  | '>' :: rest => some (.child, rest)
  | '<' :: rest => some (.parent, rest)
  | '!' :: rest => some (.ancestor, rest)
  | _ => none

def unescape : Char → Char
  | 'n' => '\n'
  | 't' => '\t'
  | 'r' => '\r'
  | c => c

/-- A quoted string after its opening quote. -/
def quoted (mark : Char) : List Char → Reading (List Char)
  | [] => .error .unterminatedString
  | '\\' :: c :: rest =>
    match quoted mark rest with
    | .ok (value, rest) => .ok (unescape c :: value, rest)
    | .error problem => .error problem
  | c :: rest =>
    if c == mark then .ok ([], rest)
    else match quoted mark rest with
      | .ok (value, rest) => .ok (c :: value, rest)
      | .error problem => .error problem

/-- A quoted string, or bare text up to the closing character. -/
def value (close : Char) : List Char → Reading String
  | '"' :: rest => (quoted '"' rest).map fun (value, rest) => (String.ofList value, rest)
  | '\'' :: rest => (quoted '\'' rest).map fun (value, rest) => (String.ofList value, rest)
  | cs =>
    .ok (String.ofList (trimRight (cs.takeWhile (· != close))), cs.dropWhile (· != close))

def isMark (c : Char) : Bool := '!' ≤ c && c ≤ '~' && !c.isAlphanum

def isOperatorChar (c : Char) : Bool :=
  isMark c && c != '"' && c != '\'' && c != ']' && c != '_'

/-- An operator, possibly empty. An equals sign ends it. -/
def operatorChars : List Char → List Char × List Char
  | [] => ([], [])
  | c :: rest =>
    if !isOperatorChar c then ([], c :: rest)
    else if c == '=' then ([c], rest)
    else
      let (operator, rest) := operatorChars rest
      (c :: operator, rest)

/-- The operator and value of an attribute test up to its closing bracket. -/
def comparison (name : String) (cs : List Char) : Reading (Operator × String) :=
  match operatorChars cs with
  | ([], _) => .error (.expectedOperator name)
  | (operator, rest) =>
    match value ']' (skipBlanks rest) with
    | .error problem => .error problem
    | .ok (value, rest) =>
      match skipBlanks rest with
      | ']' :: rest => .ok ((.ofSymbol (String.ofList operator), value), rest)
      | _ => .error .unterminatedAttribute

/-- An attribute test after its opening bracket. -/
def attributeTest (cs : List Char) : Reading Attribute :=
  match name .expectedAttributeName (skipBlanks cs) with
  | .error problem => .error problem
  | .ok (name, rest) =>
    match skipBlanks rest with
    | ']' :: rest => .ok (⟨name, none⟩, rest)
    | rest => (comparison name rest).map fun (comparison, rest) => (⟨name, some comparison⟩, rest)

/-- The argument of a pseudo-class after its opening parenthesis. An empty argument is none. -/
def argument (name : String) (cs : List Char) : Reading (Option String) :=
  match value ')' (skipBlanks cs) with
  | .error problem => .error problem
  | .ok (value, rest) =>
    match skipBlanks rest with
    | ')' :: rest => .ok (if value.isEmpty then none else some value, rest)
    | _ => .error (.unterminatedArgument name)

/-- A pseudo-class after its colon. -/
def pseudo (cs : List Char) : Reading Pseudo :=
  match name .expectedPseudoName cs with
  | .error problem => .error problem
  | .ok (name, '(' :: rest) =>
    (argument name rest).map fun (argument, rest) => (⟨name, argument⟩, rest)
  | .ok (name, rest) => .ok (⟨name, none⟩, rest)

inductive Test where
  | type (name : String)
  | field (name : String)
  | compare (test : Attribute)
  | pseudo (test : Pseudo)

/-- The test at the head of the text, if one starts there. -/
def test? : List Char → Option (Reading Test)
  | '#' :: rest => some ((name .expectedTypeName rest).map fun (name, rest) => (.type name, rest))
  | '.' :: rest => some ((name .expectedFieldName rest).map fun (name, rest) => (.field name, rest))
  | '[' :: rest => some ((attributeTest rest).map fun (test, rest) => (.compare test, rest))
  | ':' :: rest => some ((pseudo rest).map fun (test, rest) => (.pseudo test, rest))
  | _ => none

private theorem length_nameChars_le (cs : List Char) : (nameChars cs).2.length ≤ cs.length := by
  fun_induction nameChars cs <;> simp_all
  omega

private theorem length_name_le {problem : Problem} {cs : List Char} {read : String}
    {rest : List Char} (succeeds : name problem cs = .ok (read, rest)) :
    rest.length ≤ cs.length := by
  have bound := length_nameChars_le cs
  unfold name at succeeds
  split at succeeds <;> simp_all

private theorem length_quoted_le {mark : Char} {cs read rest : List Char}
    (succeeds : quoted mark cs = .ok (read, rest)) : rest.length ≤ cs.length := by
  fun_induction quoted mark cs generalizing read rest <;> grind

private theorem length_value_le {close : Char} {cs : List Char} {read : String} {rest : List Char}
    (succeeds : value close cs = .ok (read, rest)) : rest.length ≤ cs.length := by
  unfold value at succeeds
  split at succeeds
  case h_3 =>
    simp only [Except.ok.injEq, Prod.mk.injEq] at succeeds
    exact succeeds.2 ▸ (List.dropWhile_suffix _).length_le
  all_goals
    simp only [Except.map] at succeeds
    split at succeeds
    · contradiction
    · next reads =>
      have bound := length_quoted_le reads
      simp_all
      omega

private theorem length_operatorChars_le (cs : List Char) :
    (operatorChars cs).2.length ≤ cs.length := by
  fun_induction operatorChars cs <;> simp_all
  omega

private theorem length_comparison_le {named : String} {cs : List Char} {read : Operator × String}
    {rest : List Char} (succeeds : comparison named cs = .ok (read, rest)) :
    rest.length ≤ cs.length := by
  have operatorBound := length_operatorChars_le cs
  unfold comparison at succeeds
  split at succeeds
  · contradiction
  · next operator afterOperator _ operatorRead =>
    split at succeeds
    · contradiction
    · next afterValue valueRead =>
      have valueBound := length_value_le valueRead
      have blanksBound := length_skipBlanks_le afterOperator
      have closeBound := length_skipBlanks_le afterValue
      split at succeeds
      · next closed => grind
      · contradiction

private theorem length_attributeTest_le {cs : List Char} {read : Attribute} {rest : List Char}
    (succeeds : attributeTest cs = .ok (read, rest)) : rest.length ≤ cs.length := by
  unfold attributeTest at succeeds
  split at succeeds
  · contradiction
  · next named afterName nameRead =>
    have nameBound := length_name_le nameRead
    have startBound := length_skipBlanks_le cs
    have blanksBound := length_skipBlanks_le afterName
    split at succeeds
    · next closed => grind
    · simp only [Except.map] at succeeds
      split at succeeds
      · contradiction
      · next compared =>
        have bound := length_comparison_le compared
        grind

private theorem length_argument_le {named : String} {cs : List Char} {read : Option String}
    {rest : List Char} (succeeds : argument named cs = .ok (read, rest)) :
    rest.length ≤ cs.length := by
  unfold argument at succeeds
  split at succeeds
  · contradiction
  · next afterValue valueRead =>
    have valueBound := length_value_le valueRead
    have startBound := length_skipBlanks_le cs
    have closeBound := length_skipBlanks_le afterValue
    split at succeeds
    · next closed => grind
    · contradiction

private theorem length_pseudo_le {cs : List Char} {read : Pseudo} {rest : List Char}
    (succeeds : pseudo cs = .ok (read, rest)) : rest.length ≤ cs.length := by
  unfold pseudo at succeeds
  split at succeeds
  · contradiction
  · next nameRead =>
    have nameBound := length_name_le nameRead
    simp only [Except.map] at succeeds
    split at succeeds
    · contradiction
    · next argumentRead =>
      have argumentBound := length_argument_le argumentRead
      grind
  · next nameRead =>
    have nameBound := length_name_le nameRead
    grind

private theorem length_test?_lt {cs : List Char} {read : Test} {rest : List Char}
    (succeeds : test? cs = some (.ok (read, rest))) : rest.length < cs.length := by
  unfold test? at succeeds
  split at succeeds
  case h_5 => contradiction
  all_goals
    simp only [Except.map, Option.some.injEq] at succeeds
    split at succeeds
    · contradiction
    · next reads =>
      first
        | have bound := length_name_le reads
          grind
        | have bound := length_attributeTest_le reads
          grind
        | have bound := length_pseudo_le reads
          grind

/-- The tests from the head of the text on. -/
def tests (cs : List Char) : Reading (List Test) :=
  match _ : test? cs with
  | none => .ok ([], cs)
  | some (.error problem) => .error problem
  | some (.ok (test, rest)) =>
    match tests rest with
    | .ok (others, rest) => .ok (test :: others, rest)
    | .error problem => .error problem
termination_by cs.length
decreasing_by exact length_test?_lt ‹_›

def Test.type? : Test → Option String
  | .type name => some name
  | _ => none

def Test.field? : Test → Option String
  | .field name => some name
  | _ => none

def Test.attribute? : Test → Option Attribute
  | .compare test => some test
  | _ => none

def Test.pseudo? : Test → Option Pseudo
  | .pseudo test => some test
  | _ => none

def startsUpper (name : String) : Bool := name.toList.head?.any Char.isUpper

/-- The part with the given tag and tests. Of several types the last counts; without one, a tag
that starts with an upper-case letter is the type. -/
def assemble (combinator : Combinator) (tag : Option String) (tests : List Test) : Part :=
  let id := (tests.filterMap Test.type?).getLast?
  let typed := id.isNone && tag.any startsUpper
  { combinator
    tag := if typed then none else tag
    id := if typed then tag else id
    classes := tests.filterMap Test.field?
    attributes := tests.filterMap Test.attribute?
    pseudos := tests.filterMap Test.pseudo? }

/-- The tag at the head of the text; none for a star or where no name starts. -/
def tag (cs : List Char) : Option String × List Char :=
  match cs with
  | '*' :: rest => (none, rest)
  | cs => match nameChars cs with
    | ([], rest) => (none, rest)
    | (name, rest) => (some (String.ofList name), rest)

/-- A part, which must not be empty. -/
def part (combinator : Combinator) (cs : List Char) : Reading Part :=
  match tests (tag cs).2 with
  | .error problem => .error problem
  | .ok (tests, rest) =>
    if rest.length < cs.length then .ok (assemble combinator (tag cs).1 tests, rest)
    else .error (.expectedPart cs.head?)

private theorem length_part_lt {combinator : Combinator} {cs : List Char} {read : Part}
    {rest : List Char} (succeeds : part combinator cs = .ok (read, rest)) :
    rest.length < cs.length := by
  unfold part at succeeds
  split at succeeds
  · contradiction
  · split at succeeds <;> simp_all

private theorem length_combinator?_lt {cs : List Char} {read : Combinator} {rest : List Char}
    (succeeds : combinator? cs = some (read, rest)) : rest.length < cs.length := by
  unfold combinator? at succeeds
  split at succeeds <;> grind

/-- The parts of a chain, up to its end at a comma or the end of the text. -/
def parts (combinator : Combinator) (cs : List Char) : Reading Chain :=
  match _ : part combinator (skipBlanks cs) with
  | .error problem => .error problem
  | .ok (first, rest) =>
    match _ : skipBlanks rest with
    | [] => .ok ([first], [])
    | ',' :: others => .ok ([first], ',' :: others)
    | c :: others =>
      match _ : combinator? (c :: others) with
      | some (following, others) =>
        match parts following others with
        | .ok (chain, ending) => .ok (first :: chain, ending)
        | .error problem => .error problem
      | none =>
        if (c :: others).length < rest.length then
          match parts .descendant (c :: others) with
          | .ok (chain, ending) => .ok (first :: chain, ending)
          | .error problem => .error problem
        else .error (.unexpected c)
termination_by cs.length
decreasing_by
  · have startBound := length_skipBlanks_le cs
    have partBound := length_part_lt ‹part _ _ = _›
    have blanksBound := length_skipBlanks_le rest
    have combinatorBound := length_combinator?_lt ‹combinator? _ = _›
    rw [‹skipBlanks rest = _›] at blanksBound
    omega
  · have startBound := length_skipBlanks_le cs
    have partBound := length_part_lt ‹part _ _ = _›
    omega

/-- A chain: an optional combinator, then its parts. -/
def chain (cs : List Char) : Reading Chain :=
  match combinator? (skipBlanks cs) with
  | some (combinator, rest) => parts combinator rest
  | none => parts .descendant (skipBlanks cs)

/-- What follows a part starts later than the part. -/
theorem length_after_part_lt {combinator : Combinator} {cs : List Char} {read : Part}
    {rest : List Char} (succeeds : part combinator (skipBlanks cs) = .ok (read, rest)) :
    (skipBlanks rest).length < cs.length := by
  have startBound := length_skipBlanks_le cs
  have partBound := length_part_lt succeeds
  have blanksBound := length_skipBlanks_le rest
  omega

private theorem length_parts_lt {combinator : Combinator} {cs : List Char} {read : Chain}
    {rest : List Char} (succeeds : parts combinator cs = .ok (read, rest)) :
    rest.length < cs.length := by
  fun_induction parts combinator cs generalizing read rest with
  | case1 => contradiction
  | case2 _ _ _ _ partRead next =>
    have bound := length_after_part_lt partRead
    grind
  | case3 _ _ _ _ partRead _ next =>
    have bound := length_after_part_lt partRead
    grind
  | case4 _ _ _ _ partRead _ _ _ next _ _ found _ _ _ ih =>
    have bound := length_after_part_lt partRead
    have combinatorBound := length_combinator?_lt found
    grind
  | case5 => contradiction
  | case6 _ _ _ _ partRead _ _ _ next _ _ _ _ _ ih =>
    have bound := length_after_part_lt partRead
    grind
  | case7 => contradiction
  | case8 => contradiction

private theorem length_chain_lt {cs : List Char} {read : Chain} {rest : List Char}
    (succeeds : chain cs = .ok (read, rest)) : rest.length < cs.length := by
  have bound := length_skipBlanks_le cs
  unfold chain at succeeds
  split at succeeds
  · next found =>
    have combinatorBound := length_combinator?_lt found
    have partsBound := length_parts_lt succeeds
    omega
  · have partsBound := length_parts_lt succeeds
    omega

/-- The chains of a whole selector text. -/
def chains (cs : List Char) : Except Problem (List Chain) :=
  match _ : chain cs with
  | .error problem => .error problem
  | .ok (first, rest) =>
    match _ : skipBlanks rest with
    | [] => .ok [first]
    | ',' :: others =>
      match chains others with
      | .ok following => .ok (first :: following)
      | .error problem => .error problem
    | c :: _ => .error (.unexpected c)
termination_by cs.length
decreasing_by
  have chainBound := length_chain_lt ‹chain cs = _›
  have blanksBound := length_skipBlanks_le rest
  rw [‹skipBlanks rest = _›, List.length_cons] at blanksBound
  omega

end Parser

def read (text : String) : Except Problem Selector :=
  (Parser.chains text.toList).map Selector.mk

end Arbor.Selector
