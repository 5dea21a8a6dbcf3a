import Arbor.Proofs.RoundTrip
import Mathlib.Data.List.DropRight

/-! # Texts joined into a selector

A comma joins two texts into one that has the chains of both, and a combinator in front of a text gives it
to the first part. What is read off the joined text is read off the texts it is made of: the characters
that readers look ahead for, a second character of a combinator or the equals sign of an operator, are
never those of the next text. -/

namespace Arbor.Selector

/-- A comma after a text that is a selector joins what follows to it: the chains of both texts one after
the other, and the same problem where what follows has one. -/
theorem comma_joins_selectors {first : String} {front : Selector} (parsed : parse first = .ok front)
    (second : String) :
    (∀ back, parse second = .ok back →
      parse (first ++ "," ++ second) = .ok ⟨front.chains ++ back.chains⟩) ∧
    ∀ error, parse second = .error error → ∃ problem, error = .invalidSelector second problem ∧
      parse (first ++ "," ++ second) = .error (.invalidSelector (first ++ "," ++ second) problem) := by
  have joined := read_append (parse_eq_ok.mp parsed) second
  constructor
  · intro back parsedSecond
    rw [parse_eq_ok.mp parsedSecond] at joined
    exact parse_eq_ok.mpr joined
  · intro error refused
    cases readSecond : read second with
    | ok back =>
      rw [parse_eq_ok.mpr readSecond] at refused
      contradiction
    | error problem =>
      rw [parse, readSecond] at refused
      cases refused
      rw [readSecond] at joined
      exact ⟨problem, rfl, by rw [parse, joined]; rfl⟩

/-- A comma inside a quoted value joins nothing, and one at the end of a text is one too many. -/
theorem comma_joins_selectors_quoted :
    ∃ front back, parse "[a='x,y']" = .ok front ∧ parse "[b|=,]" = .ok back ∧
      front.chains.length = 1 ∧ back.chains.length = 1 ∧
      parse "[a='x,y'],[b|=,]" = .ok ⟨front.chains ++ back.chains⟩ ∧
      parse "[a='x,y']," = .error (.invalidSelector "[a='x,y']," (.expectedPart none)) := by
  have parsed : parse "[a='x,y']" =
      .ok ⟨[[⟨.descendant, none, none, [], [⟨"a", some (.equal, "x,y")⟩], []⟩]]⟩ :=
    parse_eq_ok.mpr (read_of_attribute rfl rfl)
  have parsedSecond : parse "[b|=,]" =
      .ok ⟨[[⟨.descendant, none, none, [], [⟨"b", some (.dash, ",")⟩], []⟩]]⟩ :=
    parse_eq_ok.mpr (read_of_attribute rfl rfl)
  have noPart : Parser.part .descendant [] = .error (.expectedPart none) := by
    rw [Parser.part, show Parser.tag [] = (none, []) from rfl, Parser.tests_of_none rfl]
    rfl
  have empty : parse "" = .error (.invalidSelector "" (.expectedPart none)) := by
    have noChain : Parser.chain [] = .error (.expectedPart none) := Parser.parts_of_error noPart
    rw [parse, read, String.toList_empty, Parser.chains_of_error noChain]
    rfl
  obtain ⟨problem, same, refused⟩ := (comma_joins_selectors parsed "").2 _ empty
  cases same
  exact ⟨_, _, parsed, parsedSecond, rfl, rfl,
    (comma_joins_selectors parsed "[b|=,]").1 _ parsedSecond, refused⟩

namespace Parser

open Text

/-- The chain with the given combinator for its first part. -/
def lead (combinator : Combinator) : Chain → Chain
  | [] => []
  | part :: rest => { part with combinator } :: rest

/-- The combinator of a part is not read with it. -/
theorem part_eq (combinator other : Combinator) (cs : List Char) : part combinator cs =
    (part other cs).map fun read => ({ read.1 with combinator }, read.2) := by
  rw [part, part]
  split
  · rfl
  · split <;> rfl

/-- What follows the first part of a chain. -/
def following (rest : List Char) : Reading Chain :=
  match skipBlanks rest with
  | [] => .ok ([], [])
  | ',' :: others => .ok ([], ',' :: others)
  | c :: others =>
    match combinator? (c :: others) with
    | some (combinator, others) => parts combinator others
    | none =>
      if (c :: others).length < rest.length then parts .descendant (c :: others)
      else .error (.unexpected c)

private theorem parts_eq_following {combinator : Combinator} {cs : List Char} {first : Part}
    {after : List Char} (readFirst : part combinator (skipBlanks cs) = .ok (first, after)) :
    parts combinator cs = (following after).map fun read => (first :: read.1, read.2) := by
  rw [parts, following]
  split
  · simp_all
  next read =>
  cases readFirst.symm.trans read
  split
  · next ended => simp only [ended]; rfl
  · next comma => simp only [comma]; rfl
  next c others _ next =>
  simp only [next]
  split
  · next combinator later found =>
    simp only [found]
    cases parts combinator later <;> rfl
  · next none =>
    simp only [none]
    split
    · cases parts .descendant (c :: others) <;> rfl
    · rfl

/-- The combinator in front of a chain is that of its first part and changes nothing else. -/
theorem parts_eq (combinator other : Combinator) {cs rest : List Char}
    (sameStart : skipBlanks cs = skipBlanks rest) : parts combinator cs =
      (parts other rest).map fun read => (lead combinator read.1, read.2) := by
  have change := part_eq combinator other (skipBlanks cs)
  rw [sameStart] at change
  cases readFirst : part other (skipBlanks rest) with
  | error problem =>
    rw [readFirst, ← sameStart] at change
    rw [parts_of_error readFirst, parts_of_error change]
    rfl
  | ok read =>
    rw [readFirst, ← sameStart] at change
    rw [parts_eq_following readFirst, parts_eq_following change]
    cases following read.2 <;> rfl

private theorem exists_of_parts {combinator : Combinator} {cs : List Char} {read : Chain}
    {rest : List Char} (reads : parts combinator cs = .ok (read, rest)) :
    ∃ first others, read = first :: others ∧ first.combinator = combinator := by
  rw [parts_eq combinator combinator rfl] at reads
  obtain ⟨⟨chain, ending⟩, readAny, same⟩ := map_eq_ok.mp reads
  cases same
  cases readFirst : part combinator (skipBlanks cs) with
  | error problem =>
    rw [parts_of_error readFirst] at readAny
    contradiction
  | ok first =>
    rw [parts_eq_following readFirst] at readAny
    obtain ⟨others, -, same⟩ := map_eq_ok.mp readAny
    cases same
    exact ⟨_, _, rfl, rfl⟩

private theorem ne_descendant_of_combinator? {cs : List Char} {combinator : Combinator}
    {rest : List Char} (found : combinator? cs = some (combinator, rest)) :
    combinator ≠ .descendant := by
  rw [combinator?.eq_def] at found
  split at found <;> cases found <;> simp

/-- A chain whose first part has no combinator of its own starts without one. -/
theorem combinator?_of_chain {cs : List Char} {first : Part} {others : Chain} {rest : List Char}
    (reads : chain cs = .ok (first :: others, rest)) (plain : first.combinator = .descendant) :
    combinator? (skipBlanks cs) = none := by
  cases found : combinator? (skipBlanks cs) with
  | none => rfl
  | some read =>
    rw [chain, found] at reads
    obtain ⟨_, _, same, isRead⟩ := exists_of_parts reads
    cases same
    exact absurd (isRead.symm.trans plain) (ne_descendant_of_combinator? found)

private theorem combinator?_symbol {combinator : Combinator} (given : combinator ≠ .descendant)
    (cs : List Char) : combinator? (skipBlanks (combinator.symbol.toList ++ ' ' :: cs)) =
      some (combinator, ' ' :: cs) := by
  cases combinator <;> first | contradiction | rfl

section Lead

variable {combinator : Combinator} (given : combinator ≠ .descendant) {cs : List Char} {first : Part}
  {others : Chain} (plain : first.combinator = .descendant)
include given plain

private theorem chain_lead {rest : List Char} (reads : chain cs = .ok (first :: others, rest)) :
    chain (combinator.symbol.toList ++ ' ' :: cs) = .ok ({ first with combinator } :: others, rest) := by
  have noCombinator := combinator?_of_chain reads plain
  have sameStart : skipBlanks (' ' :: cs) = skipBlanks (skipBlanks cs) :=
    (List.dropWhile_idempotent ..).symm
  rw [chain, noCombinator] at reads
  rw [chain, combinator?_symbol given]
  dsimp only at reads ⊢
  rw [parts_eq combinator .descendant sameStart, reads]
  rfl

/-- A combinator and a blank in front of chains is the combinator of the first part. -/
theorem chains_lead {chains : List Chain} (reads : Parser.chains cs = .ok ((first :: others) :: chains)) :
    Parser.chains (combinator.symbol.toList ++ ' ' :: cs) =
      .ok (({ first with combinator } :: others) :: chains) := by
  revert reads
  fun_cases Parser.chains cs with
  | case1 => simp
  | case2 read rest readChain ended =>
    rintro ⟨⟩
    exact chains_of_end (chain_lead given plain readChain) ended
  | case3 read rest readChain later next following readLater =>
    rintro ⟨⟩
    rw [chains_of_comma (chain_lead given plain readChain) next, readLater]
    rfl
  | case4 => simp
  | case5 => simp

end Lead

end Parser

/-- A combinator and a blank in front of a text that starts without one is the combinator of its first
part. -/
theorem read_lead {combinator : Combinator} (given : combinator ≠ .descendant) {text : String}
    {first : Part} {others : Chain} {chains : List Chain}
    (reads : read text = .ok ⟨(first :: others) :: chains⟩) (plain : first.combinator = .descendant) :
    read (combinator.symbol ++ " " ++ text) =
      .ok ⟨({ first with combinator } :: others) :: chains⟩ := by
  obtain ⟨_, readChains, same⟩ := map_eq_ok.mp reads
  cases same
  have joined : (combinator.symbol ++ " " ++ text).toList =
      combinator.symbol.toList ++ ' ' :: text.toList := by
    simp
  rw [read, joined, Parser.chains_lead given plain readChains]
  rfl

end Arbor.Selector
