import Arbor.Proofs.Reading

/-! # What readers return

A selector that was read has a shape that arbitrary selectors lack: its names are such that the reader
of names takes them whole, its operators likewise, no argument is empty, no chain is without parts, and a
tag in upper case occurs only beside a type. -/

namespace Arbor

namespace Selector.Parser

open Text

/-- A name as a reader returns it. -/
def IsNamed (name : String) : Prop := name.toList ≠ [] ∧ IsName name.toList

theorem name_eq_ok_iff {problem : Problem} {cs : List Char} {read : String} {rest : List Char} :
    name problem cs = .ok (read, rest) ↔ read.toList ≠ [] ∧ nameChars cs = (read.toList, rest) := by
  constructor
  · intro reads
    rw [name] at reads
    split at reads
    · contradiction
    next chars after nonempty readChars =>
    cases reads
    rw [String.toList_ofList]
    exact ⟨nonempty, readChars⟩
  · rintro ⟨nonempty, readChars⟩
    rw [name, readChars]
    split
    · next same => exact absurd (Prod.mk.inj same).1 nonempty
    · next same =>
      cases same
      rw [String.ofList_toList]

private theorem isNamed_of_name {problem : Problem} {cs : List Char} {read : String}
    {rest : List Char} (reads : name problem cs = .ok (read, rest)) : IsNamed read := by
  obtain ⟨nonempty, readChars⟩ := name_eq_ok_iff.mp reads
  exact ⟨nonempty, isName_of_nameChars readChars⟩

def IsOperator (symbol : List Char) : Prop := operatorChars symbol = (symbol, [])

theorem isOperator_cons_iff {c : Char} {rest : List Char} : IsOperator (c :: rest) ↔
    isOperatorChar c = true ∧ (c = '=' → rest = []) ∧ IsOperator rest := by
  rw [IsOperator, operatorChars, IsOperator]
  by_cases isChar : isOperatorChar c = true
  · by_cases equals : c = '='
    · subst equals
      cases rest <;> simp [isChar, operatorChars]
    · rcases operatorChars rest with ⟨operator, after⟩
      simp [isChar, equals]
  · simp [isChar]

private theorem isOperator_of_operatorChars {cs operator rest : List Char}
    (read : operatorChars cs = (operator, rest)) : IsOperator operator := by
  fun_induction operatorChars cs generalizing operator rest with
  | case1 => cases read; rfl
  | case2 => cases read; rfl
  | case3 c cs isChar equals =>
    cases read
    exact isOperator_cons_iff.mpr ⟨by simpa using isChar, fun _ => rfl, rfl⟩
  | case4 c cs isChar noEquals inner after readInner ih =>
    cases read
    refine isOperator_cons_iff.mpr ⟨by simpa using isChar, fun equals => ?_, ih readInner⟩
    simp [equals] at noEquals

theorem symbol_ofSymbol (text : String) : (Operator.ofSymbol text).symbol = text := by
  rw [Operator.ofSymbol.eq_def]
  split <;> rfl

end Selector.Parser

open Selector.Parser

/-- An attribute test as a reader returns it. -/
structure Attribute.WellRead (test : Attribute) : Prop where
  named : IsNamed test.name
  operator : ∀ operator value, test.comparison = some (operator, value) →
    operator.symbol.toList ≠ [] ∧ IsOperator operator.symbol.toList ∧
      Operator.ofSymbol operator.symbol = operator

structure Pseudo.WellRead (test : Pseudo) : Prop where
  named : IsNamed test.name
  argument : ∀ argument, test.argument = some argument → argument ≠ ""

/-- A test as a reader returns it. -/
def Selector.Parser.Test.WellRead : Test → Prop
  | .type name => IsNamed name
  | .field name => IsNamed name
  | .compare test => test.WellRead
  | .pseudo test => test.WellRead

namespace Selector.Parser

open Text

private theorem wellRead_of_comparison {named : String} {cs : List Char} {operator : Operator}
    {text : String}
    {rest : List Char} (reads : comparison named cs = .ok ((operator, text), rest)) :
    operator.symbol.toList ≠ [] ∧ IsOperator operator.symbol.toList ∧
      Operator.ofSymbol operator.symbol = operator := by
  rw [comparison] at reads
  split at reads
  · contradiction
  next symbol afterOperator nonempty readOperator =>
  split at reads
  · contradiction
  next afterText readText =>
  split at reads
  · cases reads
    rw [symbol_ofSymbol, String.toList_ofList]
    exact ⟨nonempty, isOperator_of_operatorChars readOperator, rfl⟩
  · contradiction

private theorem wellRead_of_attributeTest {cs : List Char} {test : Attribute} {rest : List Char}
    (reads : attributeTest cs = .ok (test, rest)) : test.WellRead := by
  rw [attributeTest] at reads
  split at reads
  · contradiction
  next named afterName readName =>
  have isNamed := isNamed_of_name readName
  split at reads
  · cases reads
    exact ⟨isNamed, by simp⟩
  · obtain ⟨⟨⟨operator, text⟩, ending⟩, readComparison, same⟩ := map_eq_ok.mp reads
    cases same
    refine ⟨isNamed, fun _ _ same => ?_⟩
    cases same
    exact wellRead_of_comparison readComparison

private theorem ne_empty_of_argument {named : String} {cs : List Char} {text : String}
    {rest : List Char} (reads : argument named cs = .ok (some text, rest)) : text ≠ "" := by
  rw [argument] at reads
  split at reads
  · contradiction
  next afterText readText =>
  split at reads
  · rw [Except.ok.injEq, Prod.mk.injEq] at reads
    have given := reads.1
    split at given
    · contradiction
    · next nonempty =>
      cases given
      simpa using nonempty
  · contradiction

private theorem wellRead_of_pseudo {cs : List Char} {test : Pseudo} {rest : List Char}
    (reads : pseudo cs = .ok (test, rest)) : test.WellRead := by
  rw [pseudo] at reads
  split at reads
  · contradiction
  · next named afterName readName =>
    obtain ⟨⟨read, ending⟩, readArgument, same⟩ := map_eq_ok.mp reads
    cases same
    refine ⟨isNamed_of_name readName, fun text given => ?_⟩
    subst given
    exact ne_empty_of_argument readArgument
  · next readName =>
    cases reads
    exact ⟨isNamed_of_name readName, by simp⟩

private theorem wellRead_of_test? {cs : List Char} {test : Test} {rest : List Char}
    (reads : test? cs = some (.ok (test, rest))) : test.WellRead := by
  rw [test?.eq_def] at reads
  split at reads
  · obtain ⟨⟨named, after⟩, readName, same⟩ := map_eq_ok.mp (Option.some.inj reads)
    cases same
    exact isNamed_of_name readName
  · obtain ⟨⟨named, after⟩, readName, same⟩ := map_eq_ok.mp (Option.some.inj reads)
    cases same
    exact isNamed_of_name readName
  · obtain ⟨⟨read, after⟩, readTest, same⟩ := map_eq_ok.mp (Option.some.inj reads)
    cases same
    exact wellRead_of_attributeTest readTest
  · obtain ⟨⟨read, after⟩, readTest, same⟩ := map_eq_ok.mp (Option.some.inj reads)
    cases same
    exact wellRead_of_pseudo readTest
  · contradiction

private theorem wellRead_of_tests {cs : List Char} {read : List Test} {rest : List Char}
    (reads : tests cs = .ok (read, rest)) : ∀ test ∈ read, test.WellRead := by
  fun_induction tests cs generalizing read rest with
  | case1 => cases reads; simp
  | case2 => contradiction
  | case3 cs test after found others ending readOthers ih =>
    cases reads
    exact List.forall_mem_cons.mpr ⟨wellRead_of_test? found, ih readOthers⟩
  | case4 => contradiction

end Selector.Parser

/-- A part as a reader returns it. -/
structure Part.WellRead (part : Part) : Prop where
  tag : ∀ tag, part.tag = some tag → IsNamed tag
  lower : ∀ tag, part.tag = some tag → part.id = none → startsUpper tag = false
  id : ∀ id, part.id = some id → IsNamed id
  classes : ∀ name ∈ part.classes, IsNamed name
  attributes : ∀ test ∈ part.attributes, test.WellRead
  pseudos : ∀ test ∈ part.pseudos, test.WellRead

structure Chain.WellRead (chain : Chain) : Prop where
  nonempty : chain ≠ []
  parts : ∀ part ∈ chain, part.WellRead

/-- A selector as a reader returns it. -/
structure Selector.WellRead (selector : Selector) : Prop where
  nonempty : selector.chains ≠ []
  chains : ∀ chain ∈ selector.chains, Chain.WellRead chain

namespace Selector.Parser

open Text

private theorem isNamed_of_tag {cs : List Char} {named : String} (read : (tag cs).1 = some named) :
    IsNamed named := by
  rw [tag.eq_def] at read
  split at read
  · contradiction
  · split at read
    · contradiction
    next chars after nonempty readChars =>
    cases read
    rw [IsNamed, String.toList_ofList]
    exact ⟨nonempty, isName_of_nameChars readChars⟩

/-- An upper-case tag without a type does not stay a tag. -/
theorem wellRead_assemble (combinator : Combinator) {tag : Option String} {tests : List Test}
    (tagNamed : ∀ named, tag = some named → IsNamed named) (wellRead : ∀ test ∈ tests, test.WellRead) :
    (assemble combinator tag tests).WellRead where
  tag named isTag := by
    rw [assemble] at isTag
    split at isTag
    · contradiction
    · exact tagNamed named isTag
  lower named isTag noId := by
    rw [assemble] at isTag noId
    split at isTag
    · contradiction
    · next untyped =>
      have noType : (tests.filterMap Test.type?).getLast? = none := (if_neg untyped).symm.trans noId
      subst isTag
      rw [noType] at untyped
      simpa using untyped
  id named isId := by
    rw [assemble] at isId
    split at isId
    · exact tagNamed named isId
    · obtain ⟨test, isMember, isType⟩ := List.mem_filterMap.mp (List.mem_of_getLast? isId)
      cases test with
      | type name =>
        cases isType
        exact wellRead _ isMember
      | _ => contradiction
  classes named isField := by
    obtain ⟨test, isMember, isField⟩ := List.mem_filterMap.mp isField
    cases test with
    | field name =>
      cases isField
      exact wellRead _ isMember
    | _ => contradiction
  attributes compared isAttribute := by
    obtain ⟨test, isMember, isAttribute⟩ := List.mem_filterMap.mp isAttribute
    cases test with
    | compare read =>
      cases isAttribute
      exact wellRead _ isMember
    | _ => contradiction
  pseudos asked isPseudo := by
    obtain ⟨test, isMember, isPseudo⟩ := List.mem_filterMap.mp isPseudo
    cases test with
    | pseudo read =>
      cases isPseudo
      exact wellRead _ isMember
    | _ => contradiction

private theorem wellRead_of_part {combinator : Combinator} {cs : List Char} {read : Part}
    {rest : List Char} (reads : part combinator cs = .ok (read, rest)) : read.WellRead := by
  rw [part] at reads
  split at reads
  · contradiction
  next readTests =>
  split at reads
  · cases reads
    exact wellRead_assemble combinator (fun _ => isNamed_of_tag) (wellRead_of_tests readTests)
  · contradiction

private theorem wellRead_singleton {part : Part} (wellRead : part.WellRead) :
    Chain.WellRead [part] where
  nonempty := List.cons_ne_nil _ _
  parts := by simpa using wellRead

private theorem wellRead_cons {part : Part} {chain : Chain} (first : part.WellRead)
    (others : Chain.WellRead chain) : Chain.WellRead (part :: chain) where
  nonempty := List.cons_ne_nil _ _
  parts := List.forall_mem_cons.mpr ⟨first, others.parts⟩

private theorem wellRead_of_parts {combinator : Combinator} {cs : List Char} {read : Chain}
    {rest : List Char} (reads : parts combinator cs = .ok (read, rest)) : Chain.WellRead read := by
  fun_induction parts combinator cs generalizing read rest with
  | case1 => contradiction
  | case2 _ _ _ _ readFirst =>
    cases reads
    exact wellRead_singleton (wellRead_of_part readFirst)
  | case3 _ _ _ _ readFirst =>
    cases reads
    exact wellRead_singleton (wellRead_of_part readFirst)
  | case4 _ _ _ _ readFirst _ _ _ _ _ _ _ _ _ readOthers ih =>
    cases reads
    exact wellRead_cons (wellRead_of_part readFirst) (ih readOthers)
  | case5 => contradiction
  | case6 _ _ _ _ readFirst _ _ _ _ _ _ _ _ readOthers ih =>
    cases reads
    exact wellRead_cons (wellRead_of_part readFirst) (ih readOthers)
  | case7 => contradiction
  | case8 => contradiction

private theorem wellRead_of_chain {cs : List Char} {read : Chain} {rest : List Char}
    (reads : chain cs = .ok (read, rest)) : Chain.WellRead read := by
  rw [chain] at reads
  split at reads
  · exact wellRead_of_parts reads
  · exact wellRead_of_parts reads

theorem wellRead_of_chains {cs : List Char} {read : List Chain} (reads : chains cs = .ok read) :
    Selector.WellRead ⟨read⟩ := by
  fun_induction chains cs generalizing read with
  | case1 => contradiction
  | case2 _ _ _ readFirst =>
    cases reads
    exact ⟨List.cons_ne_nil _ _, by simpa using wellRead_of_chain readFirst⟩
  | case3 _ _ _ readFirst _ _ _ readOthers ih =>
    cases reads
    exact ⟨List.cons_ne_nil _ _,
      List.forall_mem_cons.mpr ⟨wellRead_of_chain readFirst, (ih readOthers).chains⟩⟩
  | case4 => contradiction
  | case5 => contradiction

end Selector.Parser

theorem Selector.wellRead_of_read {text : String} {selector : Selector}
    (reads : read text = .ok selector) : selector.WellRead := by
  obtain ⟨chains, readChains, rfl⟩ := map_eq_ok.mp reads
  exact wellRead_of_chains readChains

end Arbor
