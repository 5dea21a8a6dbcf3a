import Arbor.Proofs.Store
import Arbor.Query.Error
import Mathlib.Data.List.TakeWhile

/-! # Readers look no further than they read

What a reader of selectors reads off a text it reads off every longer text, as long as what is added
cannot belong to what was read last. A bracket or a quote that is closed has its end inside the text, so
anything may follow; a name goes on as long as there are name characters, so a delimiter has to follow.
A comma is such a delimiter: the selector of two texts with a comma between them has the chains of the
first and then the chains of the second. -/

namespace Arbor.Selector

namespace Parser

open Text

/-- A run that ends inside the text ends there in every longer text. -/
theorem run_append {test : Char → Bool} {cs : List Char} (left : cs.dropWhile test ≠ [])
    (more : List Char) : (cs ++ more).takeWhile test = cs.takeWhile test ∧
      (cs ++ more).dropWhile test = cs.dropWhile test ++ more := by
  induction cs with
  | nil => exact absurd rfl left
  | cons c rest ih =>
    cases passes : test c with
    | true =>
      rw [List.dropWhile_cons_of_pos passes] at left
      obtain ⟨taken, dropped⟩ := ih left
      simp [passes, taken, dropped]
    | false => simp [passes]

private theorem skipBlanks_append {cs : List Char} (more : List Char) (left : skipBlanks cs ≠ []) :
    skipBlanks (cs ++ more) = skipBlanks cs ++ more :=
  (run_append left more).2

theorem skipBlanks_of_not_blank {c : Char} (rest : List Char) (solid : isBlank c = false) :
    skipBlanks (c :: rest) = c :: rest := by
  simp [skipBlanks, solid]

private theorem skipBlanks_append_solid (cs : List Char) {c : Char} (more : List Char)
    (solid : isBlank c = false) : skipBlanks (cs ++ c :: more) = skipBlanks cs ++ c :: more := by
  by_cases left : skipBlanks cs = []
  · rw [left]
    have blank : ∀ x ∈ cs, isBlank x = true := List.dropWhile_eq_nil_iff.mp left
    rw [skipBlanks, List.dropWhile_append_of_pos blank]
    exact skipBlanks_of_not_blank more solid
  · exact skipBlanks_append _ left

section Names

/-- A character belongs to a name if it can, and does not start an operator. -/
theorem goesOn_iff {c : Char} {rest : List Char} :
    (isNameChar c && !(c == '$' && rest.head? == some '=')) = true ↔
      isNameChar c = true ∧ ¬ (c = '$' ∧ rest.head? = some '=') := by
  rw [Bool.and_eq_true, Bool.not_eq_true', ← Bool.not_eq_true, Bool.and_eq_true, beq_iff_eq,
    beq_iff_eq]

/-- No name goes on with the text. -/
def EndsName (cs : List Char) : Prop := ∀ c, cs.head? = some c → isNameChar c = false ∧ c ≠ '='

theorem nameChars_of_endsName {cs : List Char} (ends : EndsName cs) : nameChars cs = ([], cs) := by
  cases cs with
  | nil => rfl
  | cons c rest => simp [nameChars, (ends c rfl).1]

theorem append_of_nameChars {cs name rest : List Char} (read : nameChars cs = (name, rest)) :
    cs = name ++ rest := by
  fun_induction nameChars cs generalizing name rest with
  | case1 => cases read; rfl
  | case2 c cs isName inner after readInner ih =>
    cases read
    rw [ih readInner, List.cons_append]
  | case3 => cases read; rfl

/-- Where a name ends inside the text, more text does not change it. -/
theorem nameChars_append {cs name rest : List Char} (read : nameChars cs = (name, rest))
    (left : rest ≠ []) (more : List Char) : nameChars (cs ++ more) = (name, rest ++ more) := by
  fun_induction nameChars cs generalizing name rest with
  | case1 => cases read; contradiction
  | case2 c cs isName inner after readInner ih =>
    cases read
    have goesOn : (isNameChar c && !(c == '$' && (cs ++ more).head? == some '=')) = true := by
      cases cs with
      | nil => cases readInner; contradiction
      | cons d ds => simpa using isName
    rw [List.cons_append, nameChars, if_pos goesOn, ih readInner left]
  | case3 c cs stops =>
    cases read
    have ends : ¬ (isNameChar c && !(c == '$' && (cs ++ more).head? == some '=')) = true := by
      cases cs with
      | nil => simp_all
      | cons d ds => simpa using stops
    rw [List.cons_append, nameChars, if_neg ends]

/-- The whole text is a name. -/
def IsName (name : List Char) : Prop := nameChars name = (name, [])

theorem isName_cons_iff {c : Char} {rest : List Char} : IsName (c :: rest) ↔
    isNameChar c = true ∧ ¬ (c = '$' ∧ rest.head? = some '=') ∧ IsName rest := by
  rw [IsName, nameChars, IsName, ← and_assoc, ← goesOn_iff]
  rcases nameChars rest with ⟨name, after⟩
  split
  · next goesOn => simp only [goesOn, true_and, Prod.mk.injEq, List.cons.injEq]
  · next stops => simp only [stops, false_and, Prod.mk.injEq, List.nil_eq, reduceCtorEq]

theorem isName_of_nameChars {cs name rest : List Char} (read : nameChars cs = (name, rest)) :
    IsName name := by
  fun_induction nameChars cs generalizing name rest with
  | case1 => cases read; rfl
  | case2 c cs goesOn inner after readInner ih =>
    cases read
    obtain ⟨isChar, noOperator⟩ := goesOn_iff.mp goesOn
    refine isName_cons_iff.mpr ⟨isChar, ?_, ih readInner⟩
    rintro ⟨dollar, equals⟩
    refine noOperator ⟨dollar, ?_⟩
    rw [append_of_nameChars readInner]
    cases inner with
    | nil => simp at equals
    | cons d ds => exact equals
  | case3 => cases read; rfl

/-- After a name, more of it is read off what follows, unless its last dollar sign starts an operator
there. -/
theorem IsName.append {name : List Char} (isName : IsName name) {more : List Char}
    (apart : ¬ (name.getLast? = some '$' ∧ more.head? = some '=')) :
    nameChars (name ++ more) = (name ++ (nameChars more).1, (nameChars more).2) := by
  induction name with
  | nil => rfl
  | cons c rest ih =>
    obtain ⟨isChar, noOperator, restIsName⟩ := isName_cons_iff.mp isName
    have goesOn : (isNameChar c && !(c == '$' && (rest ++ more).head? == some '=')) = true := by
      refine goesOn_iff.mpr ⟨isChar, ?_⟩
      cases rest with
      | nil => simpa using apart
      | cons d ds => exact noOperator
    have restApart : ¬ (rest.getLast? = some '$' ∧ more.head? = some '=') := by
      cases rest with
      | nil => simp
      | cons d ds => simpa using apart
    rw [List.cons_append, nameChars, if_pos goesOn, ih restIsName restApart]
    rfl

/-- A name that a delimiter follows is read off whole. -/
theorem IsName.append_of_endsName {name : List Char} (isName : IsName name) {more : List Char}
    (ends : EndsName more) : nameChars (name ++ more) = (name, more) := by
  have apart : ¬ (name.getLast? = some '$' ∧ more.head? = some '=') := by
    rintro ⟨_, equals⟩
    exact (ends '=' equals).2 rfl
  rw [isName.append apart, nameChars_of_endsName ends, List.append_nil]

theorem nameChars_append_of_endsName (cs : List Char) {more : List Char} (ends : EndsName more) :
    nameChars (cs ++ more) = ((nameChars cs).1, (nameChars cs).2 ++ more) := by
  rcases read : nameChars cs with ⟨name, rest⟩
  by_cases left : rest = []
  · subst left
    have whole := append_of_nameChars read
    rw [List.append_nil] at whole
    rw [whole]
    exact (isName_of_nameChars read).append_of_endsName ends
  · exact nameChars_append read left more

end Names

section Values

private theorem quoted_append {mark : Char} (plain : mark ≠ '\\') {cs value rest : List Char}
    (read : quoted mark cs = .ok (value, rest)) (more : List Char) :
    quoted mark (cs ++ more) = .ok (value, rest ++ more) := by
  fun_induction quoted mark cs generalizing value rest with
  | case1 => contradiction
  | case2 c cs inner after readInner ih =>
    cases read
    rw [List.cons_append, List.cons_append, quoted, ih readInner]
  | case3 => contradiction
  | case4 c cs noEscape closes =>
    cases read
    rw [List.cons_append, quoted.eq_def]
    split
    · simp_all
    · simp_all
    · simp_all
  | case5 c cs noEscape goesOn inner after readInner ih =>
    cases read
    rw [List.cons_append, quoted.eq_def]
    split
    · simp_all
    · next escape =>
      cases cs with
      | nil => simp [quoted] at readInner
      | cons d ds => simp_all
    · simp_all
  | case6 => contradiction

private theorem operatorChars_append {cs operator rest : List Char}
    (read : operatorChars cs = (operator, rest)) (left : rest ≠ []) (more : List Char) :
    operatorChars (cs ++ more) = (operator, rest ++ more) := by
  fun_induction operatorChars cs generalizing operator rest with
  | case1 => cases read; contradiction
  | case2 c cs stops =>
    cases read
    rw [List.cons_append, operatorChars, if_pos stops]
  | case3 c cs goesOn equals =>
    cases read
    rw [List.cons_append, operatorChars, if_neg goesOn, if_pos equals]
  | case4 c cs goesOn noEquals inner after readInner ih =>
    cases read
    rw [List.cons_append, operatorChars, if_neg goesOn, if_neg noEquals, ih readInner left]

private theorem value_append {close : Char} {cs : List Char} {read : String} {rest : List Char}
    (reads : value close cs = .ok (read, rest)) (left : rest ≠ []) (more : List Char) :
    value close (cs ++ more) = .ok (read, rest ++ more) := by
  rw [value.eq_def] at reads
  split at reads
  · obtain ⟨⟨inner, after⟩, readInner, same⟩ := map_eq_ok.mp reads
    cases same
    rw [List.cons_append, value, quoted_append (by decide) readInner]
    rfl
  · obtain ⟨⟨inner, after⟩, readInner, same⟩ := map_eq_ok.mp reads
    cases same
    rw [List.cons_append, value, quoted_append (by decide) readInner]
    rfl
  · next noDouble noSingle =>
    cases reads
    obtain ⟨taken, dropped⟩ := run_append left more
    cases cs with
    | nil => exact absurd rfl left
    | cons c cs =>
      rw [value.eq_def]
      split
      · simp_all
      · simp_all
      · rw [taken, dropped]

private theorem comparison_append {named : String} {cs : List Char} {read : Operator × String}
    {rest : List Char} (reads : comparison named cs = .ok (read, rest)) (more : List Char) :
    comparison named (cs ++ more) = .ok (read, rest ++ more) := by
  rw [comparison] at reads
  split at reads
  · contradiction
  next operator afterOperator nonempty readOperator =>
  split at reads
  · contradiction
  next text afterText readText =>
  split at reads
  · next ending closed =>
    cases reads
    have closes : skipBlanks afterText ≠ [] := by simp [closed]
    have textLeft : afterText ≠ [] := by
      rintro rfl
      exact closes rfl
    have operatorLeft : skipBlanks afterOperator ≠ [] := by
      intro nothing
      rw [nothing] at readText
      cases readText
      exact textLeft rfl
    have nonempty : afterOperator ≠ [] := by
      rintro rfl
      exact operatorLeft rfl
    rw [comparison, operatorChars_append readOperator nonempty more]
    simp only [skipBlanks_append more operatorLeft, value_append readText textLeft more,
      skipBlanks_append more closes, closed, List.cons_append]
  · contradiction

private theorem name_append {problem : Problem} {cs : List Char} {read : String} {rest : List Char}
    (reads : name problem cs = .ok (read, rest)) {more : List Char}
    (ends : rest ≠ [] ∨ EndsName more) : name problem (cs ++ more) = .ok (read, rest ++ more) := by
  rw [name] at reads
  split at reads
  · contradiction
  next chars after nonempty readChars =>
  cases reads
  have longer : nameChars (cs ++ more) = (chars, rest ++ more) := by
    obtain left | ends := ends
    · exact nameChars_append readChars left more
    · rw [nameChars_append_of_endsName cs ends, readChars]
  rw [name, longer]
  cases chars with
  | nil => exact absurd rfl nonempty
  | cons c cs => rfl

private theorem ne_nil_of_name {problem : Problem} {cs : List Char} {read : String}
    {rest : List Char} (reads : name problem cs = .ok (read, rest)) : cs ≠ [] := by
  rintro rfl
  simp [name, nameChars] at reads

private theorem ne_nil_of_comparison {named : String} {cs : List Char} {read : Operator × String}
    {rest : List Char} (reads : comparison named cs = .ok (read, rest)) : cs ≠ [] := by
  rintro rfl
  simp [comparison, operatorChars] at reads

private theorem attributeTest_append {cs : List Char} {read : Attribute} {rest : List Char}
    (reads : attributeTest cs = .ok (read, rest)) (more : List Char) :
    attributeTest (cs ++ more) = .ok (read, rest ++ more) := by
  rw [attributeTest] at reads
  split at reads
  · contradiction
  next named afterName readName =>
  have start := skipBlanks_append more (ne_nil_of_name readName)
  have goesOn (left : skipBlanks afterName ≠ []) :
      name .expectedAttributeName (skipBlanks (cs ++ more)) = .ok (named, afterName ++ more) := by
    have nameLeft : afterName ≠ [] := by
      rintro rfl
      exact left rfl
    rw [start]
    exact name_append readName (.inl nameLeft)
  split at reads
  · next ending closed =>
    cases reads
    have left : skipBlanks afterName ≠ [] := by simp [closed]
    rw [attributeTest, goesOn left]
    simp only [skipBlanks_append more left, closed, List.cons_append]
  · next open_ =>
    obtain ⟨⟨compared, ending⟩, readComparison, same⟩ := map_eq_ok.mp reads
    cases same
    have left := ne_nil_of_comparison readComparison
    rw [attributeTest, goesOn left]
    simp only [skipBlanks_append more left]
    split
    · next after closed =>
      obtain ⟨c, cs, isCons⟩ := List.exists_cons_of_ne_nil left
      rw [isCons, List.cons_append, List.cons.injEq] at closed
      exact absurd (closed.1 ▸ isCons) (open_ _)
    · rw [comparison_append readComparison more]
      rfl

private theorem argument_append {named : String} {cs : List Char} {read : Option String}
    {rest : List Char} (reads : argument named cs = .ok (read, rest)) (more : List Char) :
    argument named (cs ++ more) = .ok (read, rest ++ more) := by
  rw [argument] at reads
  split at reads
  · contradiction
  next text afterText readText =>
  split at reads
  · next ending closed =>
    cases reads
    have closes : skipBlanks afterText ≠ [] := by simp [closed]
    have textLeft : afterText ≠ [] := by
      rintro rfl
      exact closes rfl
    have left : skipBlanks cs ≠ [] := by
      intro nothing
      rw [nothing] at readText
      cases readText
      exact textLeft rfl
    rw [argument, skipBlanks_append more left]
    simp only [value_append readText textLeft more, skipBlanks_append more closes, closed,
      List.cons_append]
  · contradiction

end Values

section Parts

/-- No part goes on with the text: it is at its end, at a blank or at a comma. -/
def EndsPart (cs : List Char) : Prop := ∀ c, cs.head? = some c → c = ' ' ∨ c = ','

theorem EndsPart.endsName {cs : List Char} (ends : EndsPart cs) : EndsName cs := by
  intro c isHead
  obtain rfl | rfl := ends c isHead <;> decide +kernel

theorem pseudo_of_name {cs : List Char} {named : String} {rest : List Char}
    (readName : name .expectedPseudoName cs = .ok (named, rest)) (plain : rest.head? ≠ some '(') :
    pseudo cs = .ok (⟨named, none⟩, rest) := by
  rw [pseudo, readName]
  split
  · contradiction
  · next same =>
    cases same
    exact absurd rfl plain
  · next same =>
    cases same
    rfl

private theorem pseudo_append {cs : List Char} {read : Pseudo} {rest : List Char}
    (reads : pseudo cs = .ok (read, rest)) {more : List Char} (ends : EndsPart more) :
    pseudo (cs ++ more) = .ok (read, rest ++ more) := by
  rw [pseudo] at reads
  split at reads
  · contradiction
  · next named afterName readName =>
    obtain ⟨⟨read, ending⟩, readArgument, same⟩ := map_eq_ok.mp reads
    cases same
    rw [pseudo, name_append readName (.inl (by simp))]
    simp only [List.cons_append, argument_append readArgument more]
    rfl
  · next named afterName noArgument readName =>
    cases reads
    refine pseudo_of_name (name_append readName (.inr ends.endsName)) ?_
    cases rest with
    | nil =>
      intro opens
      obtain bad | bad := ends '(' opens <;> contradiction
    | cons c cs =>
      intro opens
      obtain rfl : c = '(' := by simpa using opens
      exact noArgument cs rfl

private theorem test?_append {cs : List Char} {read : Test} {rest : List Char}
    (reads : test? cs = some (.ok (read, rest))) {more : List Char} (ends : EndsPart more) :
    test? (cs ++ more) = some (.ok (read, rest ++ more)) := by
  rw [test?.eq_def] at reads
  split at reads
  · obtain ⟨⟨named, after⟩, readName, same⟩ := map_eq_ok.mp (Option.some.inj reads)
    cases same
    rw [List.cons_append, test?, name_append readName (.inr ends.endsName)]
    rfl
  · obtain ⟨⟨named, after⟩, readName, same⟩ := map_eq_ok.mp (Option.some.inj reads)
    cases same
    rw [List.cons_append, test?, name_append readName (.inr ends.endsName)]
    rfl
  · obtain ⟨⟨test, after⟩, readTest, same⟩ := map_eq_ok.mp (Option.some.inj reads)
    cases same
    rw [List.cons_append, test?, attributeTest_append readTest more]
    rfl
  · obtain ⟨⟨test, after⟩, readTest, same⟩ := map_eq_ok.mp (Option.some.inj reads)
    cases same
    rw [List.cons_append, test?, pseudo_append readTest ends]
    rfl
  · contradiction

theorem test?_of_endsPart {cs : List Char} (ends : EndsPart cs) : test? cs = none := by
  cases cs with
  | nil => rfl
  | cons c rest => obtain rfl | rfl := ends c rfl <;> rfl

/-- Whether a test starts depends on the first character only. -/
theorem test?_append_none {cs : List Char} (none : test? cs = none) {more : List Char}
    (ends : EndsPart more) : test? (cs ++ more) = .none := by
  cases cs with
  | nil => exact test?_of_endsPart ends
  | cons c rest =>
    rw [test?.eq_def] at none
    split at none <;> try contradiction
    rw [List.cons_append, test?.eq_def]
    split <;> simp_all

theorem tests_of_none {cs : List Char} (none : test? cs = none) : tests cs = .ok ([], cs) := by
  rw [tests]
  split <;> simp_all

theorem tests_of_test {cs : List Char} {test : Test} {rest : List Char}
    (found : test? cs = some (.ok (test, rest))) :
    tests cs = (tests rest).map fun (others, ending) => (test :: others, ending) := by
  rw [tests]
  split
  · simp_all
  · simp_all
  · next again =>
    cases found.symm.trans again
    cases tests rest <;> rfl

private theorem tests_append {cs : List Char} {read : List Test} {rest : List Char}
    (reads : tests cs = .ok (read, rest)) {more : List Char} (ends : EndsPart more) :
    tests (cs ++ more) = .ok (read, rest ++ more) := by
  fun_induction tests cs generalizing read rest with
  | case1 cs none =>
    cases reads
    exact tests_of_none (test?_append_none none ends)
  | case2 => contradiction
  | case3 cs test after found others ending readOthers ih =>
    cases reads
    rw [tests_of_test (test?_append found ends), ih readOthers]
    rfl
  | case4 => contradiction

theorem tag_of_not_star {cs : List Char} (noStar : cs.head? ≠ some '*') : tag cs =
    (if (nameChars cs).1 = [] then none else some (String.ofList (nameChars cs).1),
      (nameChars cs).2) := by
  rw [tag.eq_def]
  split
  · simp at noStar
  · rcases nameChars cs with ⟨name, rest⟩
    cases name <;> rfl

private theorem tag_append (cs : List Char) {more : List Char} (ends : EndsPart more) :
    tag (cs ++ more) = ((tag cs).1, (tag cs).2 ++ more) := by
  by_cases star : cs.head? = some '*'
  · obtain ⟨rest, rfl⟩ := List.head?_eq_some_iff.mp star
    rfl
  · have starLater : (cs ++ more).head? ≠ some '*' := by
      cases cs with
      | cons c rest => exact star
      | nil =>
        intro isStar
        obtain bad | bad := ends '*' isStar <;> contradiction
    rw [tag_of_not_star star, tag_of_not_star starLater,
      nameChars_append_of_endsName cs ends.endsName]

private theorem part_append {combinator : Combinator} {cs : List Char} {read : Part}
    {rest : List Char}
    (reads : part combinator cs = .ok (read, rest)) {more : List Char} (ends : EndsPart more) :
    part combinator (cs ++ more) = .ok (read, rest ++ more) := by
  rw [part] at reads
  split at reads
  · contradiction
  next read after readTests =>
  split at reads
  · next nonempty =>
    cases reads
    rw [part, tag_append cs ends]
    simp only [tests_append readTests ends, List.length_append, Nat.add_lt_add_iff_right, nonempty,
      if_true]
  · contradiction

end Parts

private theorem endsPart_comma (more : List Char) : EndsPart (',' :: more) := by
  intro c isHead
  exact .inr (by simpa using isHead.symm)

theorem isBlank_comma : isBlank ',' = false := by decide

/-- No combinator starts with the text: those of one character are missing, and those of two are not
finished. -/
theorem combinator?_cons_eq_none_iff {c : Char} {rest : List Char} : combinator? (c :: rest) = none ↔
    c ∉ ['>', '<', '!'] ∧ (c ∈ ['~', '='] → rest.head? ≠ some '>') := by
  rw [combinator?.eq_def]
  split
  · next same => cases same; simp
  · next same => cases same; simp
  · next same => cases same; simp
  · next same => cases same; simp
  · next same => cases same; simp
  · next same => cases same; simp
  · next noBlocks noFunctions _ noChild noParent noAncestor =>
    refine iff_of_true rfl ⟨?_, ?_⟩
    · intro isSymbol
      simp only [List.mem_cons, List.not_mem_nil, or_false] at isSymbol
      obtain rfl | rfl | rfl := isSymbol
      · exact noChild rest rfl
      · exact noParent rest rfl
      · exact noAncestor rest rfl
    · intro isSymbol follows
      obtain ⟨later, rfl⟩ := List.head?_eq_some_iff.mp follows
      simp only [List.mem_cons, List.not_mem_nil, or_false] at isSymbol
      obtain rfl | rfl := isSymbol
      · exact noBlocks later rfl
      · exact noFunctions later rfl

private theorem combinator?_append_none {cs : List Char} (none : combinator? cs = none)
    (more : List Char) : combinator? (cs ++ ',' :: more) = .none := by
  cases cs with
  | nil => rfl
  | cons c cs =>
    obtain ⟨noSingle, noDouble⟩ := combinator?_cons_eq_none_iff.mp none
    refine combinator?_cons_eq_none_iff.mpr ⟨noSingle, fun isSymbol => ?_⟩
    cases cs with
    | nil => simp
    | cons d cs => exact noDouble isSymbol

private theorem combinator?_append {cs : List Char} {read : Combinator} {rest : List Char}
    (reads : combinator? cs = some (read, rest)) (more : List Char) :
    combinator? (cs ++ ',' :: more) = some (read, rest ++ ',' :: more) := by
  rw [combinator?.eq_def] at reads
  split at reads
  · cases reads; rfl
  · cases reads; rfl
  · cases reads; rfl
  · next after noSecond =>
    cases reads
    rw [List.cons_append, combinator?.eq_def]
    cases rest with
    | nil => rfl
    | cons c cs =>
      split
      · next same => cases same
      · next same => cases same
      · next same =>
        cases same
        exact absurd rfl (noSecond cs)
      · next same => cases same; rfl
      · next same => cases same
      · next same => cases same
      · next noChild _ _ => exact absurd rfl (noChild _)
  · cases reads; rfl
  · cases reads; rfl
  · contradiction
section Parts

variable {combinator : Combinator} {cs : List Char} {first : Part} {after : List Char}
  (readFirst : part combinator (skipBlanks cs) = .ok (first, after))

include readFirst

theorem parts_of_end (ended : skipBlanks after = []) : parts combinator cs = .ok ([first], []) := by
  rw [parts]
  split
  · simp_all
  next read =>
  cases readFirst.symm.trans read
  split
  · rfl
  · simp_all
  · simp_all

theorem parts_of_comma {others : List Char} (ended : skipBlanks after = ',' :: others) :
    parts combinator cs = .ok ([first], ',' :: others) := by
  rw [parts]
  split
  · simp_all
  next read =>
  cases readFirst.symm.trans read
  split
  · simp_all
  · next again =>
    cases ended.symm.trans again
    rfl
  · next noComma again =>
    cases ended.symm.trans again
    exact absurd rfl noComma

theorem parts_of_combinator {following : Combinator} {others : List Char}
    (found : combinator? (skipBlanks after) = some (following, others)) :
    parts combinator cs = (parts following others).map fun (chain, ending) => (first :: chain, ending) := by
  rw [parts]
  split
  · simp_all
  next read =>
  cases readFirst.symm.trans read
  split
  · next next => simp [next, combinator?] at found
  · next next => simp [next, combinator?] at found
  next next =>
  rw [next] at found
  split
  · next again =>
    cases found.symm.trans again
    cases parts following others <;> rfl
  · simp_all

theorem parts_of_blank {c : Char} {others : List Char} (next : skipBlanks after = c :: others)
    (noComma : c ≠ ',') (none : combinator? (c :: others) = none)
    (shorter : (c :: others).length < after.length) :
    parts combinator cs =
      (parts .descendant (c :: others)).map fun (chain, ending) => (first :: chain, ending) := by
  rw [parts]
  split
  · simp_all
  next read =>
  cases readFirst.symm.trans read
  split
  · simp_all
  · next again =>
    cases next.symm.trans again
    exact absurd rfl noComma
  next again =>
  cases next.symm.trans again
  split
  · simp_all
  · rw [if_pos shorter]
    cases parts .descendant (c :: others) <;> rfl

end Parts

private theorem parts_append {combinator : Combinator} {cs : List Char} {read : Chain}
    {rest : List Char} (reads : parts combinator cs = .ok (read, rest)) (more : List Char) :
    parts combinator (cs ++ ',' :: more) = .ok (read, rest ++ ',' :: more) := by
  have longer {combinator : Combinator} {cs : List Char} {first : Part} {after : List Char}
      (readFirst : part combinator (skipBlanks cs) = .ok (first, after)) :
      part combinator (skipBlanks (cs ++ ',' :: more)) = .ok (first, after ++ ',' :: more) := by
    rw [skipBlanks_append_solid cs more isBlank_comma]
    exact part_append readFirst (endsPart_comma more)
  have skips (after : List Char) : skipBlanks (after ++ ',' :: more) = skipBlanks after ++ ',' :: more :=
    skipBlanks_append_solid after more isBlank_comma
  fun_induction parts combinator cs generalizing read rest with
  | case1 => contradiction
  | case2 combinator cs first after readFirst ended =>
    cases reads
    exact parts_of_comma (longer readFirst) (by rw [skips, ended, List.nil_append])
  | case3 combinator cs first after readFirst others ended =>
    cases reads
    have comma : skipBlanks (after ++ ',' :: more) = ',' :: (others ++ ',' :: more) := by
      rw [skips, ended, List.cons_append]
    exact parts_of_comma (longer readFirst) comma
  | case4 combinator cs first after readFirst c others noComma next following later found chain ending
      readRest ih =>
    cases reads
    rw [parts_of_combinator (longer readFirst) (by rw [skips, next, combinator?_append found]),
      ih readRest]
    rfl
  | case5 => contradiction
  | case6 combinator cs first after readFirst c others noComma next none shorter chain ending readRest
      ih =>
    cases reads
    have nextThen : skipBlanks (after ++ ',' :: more) = c :: (others ++ ',' :: more) := by
      rw [skips, next, List.cons_append]
    have shorterThen : (c :: (others ++ ',' :: more)).length < (after ++ ',' :: more).length := by
      simp only [List.length_cons, List.length_append] at shorter ⊢
      omega
    have tail := ih readRest
    rw [List.cons_append] at tail
    rw [parts_of_blank (longer readFirst) nextThen noComma (combinator?_append_none none more)
      shorterThen, tail]
    rfl
  | case7 => contradiction
  | case8 => contradiction

private theorem chain_append {cs : List Char} {read : Chain} {rest : List Char}
    (reads : chain cs = .ok (read, rest)) (more : List Char) :
    chain (cs ++ ',' :: more) = .ok (read, rest ++ ',' :: more) := by
  rw [chain] at reads
  rw [chain, skipBlanks_append_solid cs more isBlank_comma]
  split at reads
  · next combinator after found =>
    rw [combinator?_append found]
    exact parts_append reads more
  · next none =>
    rw [combinator?_append_none none]
    exact parts_append reads more

theorem chains_of_end {cs : List Char} {first : Chain} {rest : List Char}
    (readFirst : chain cs = .ok (first, rest)) (ended : skipBlanks rest = []) :
    chains cs = .ok [first] := by
  rw [chains]
  split
  · simp_all
  next read =>
  cases readFirst.symm.trans read
  split
  · rfl
  · simp_all
  · simp_all

theorem chains_of_comma {cs : List Char} {first : Chain} {rest others : List Char}
    (readFirst : chain cs = .ok (first, rest)) (next : skipBlanks rest = ',' :: others) :
    chains cs = (chains others).map (first :: ·) := by
  rw [chains]
  split
  · simp_all
  next read =>
  cases readFirst.symm.trans read
  split
  · simp_all
  · next again =>
    cases next.symm.trans again
    cases chains others <;> rfl
  · next noComma again =>
    cases next.symm.trans again
    exact absurd rfl noComma

/-- Behind a text that is read whole, a comma and what follows it are read on their own. -/
theorem chains_append {first : List Char} {front : List Chain} (readFirst : chains first = .ok front)
    (second : List Char) : chains (first ++ ',' :: second) = (chains second).map (front ++ ·) := by
  have skips (after : List Char) :
      skipBlanks (after ++ ',' :: second) = skipBlanks after ++ ',' :: second :=
    skipBlanks_append_solid after second isBlank_comma
  fun_induction chains first generalizing front with
  | case1 => contradiction
  | case2 cs chain rest readChain ended =>
    cases readFirst
    have comma : skipBlanks (rest ++ ',' :: second) = ',' :: second := by
      rw [skips, ended, List.nil_append]
    exact chains_of_comma (chain_append readChain second) comma
  | case3 cs chain rest readChain others next following readRest ih =>
    cases readFirst
    have comma : skipBlanks (rest ++ ',' :: second) = ',' :: (others ++ ',' :: second) := by
      rw [skips, next, List.cons_append]
    rw [chains_of_comma (chain_append readChain second) comma, ih readRest]
    cases chains second <;> rfl
  | case4 => contradiction
  | case5 => contradiction

end Parser

/-- What is read off two texts with a comma between them is read off each of them, if the first can be
read. -/
theorem read_append {first : String} {front : Selector} (readFirst : read first = .ok front)
    (second : String) : read (first ++ "," ++ second) =
      (read second).map fun back => ⟨front.chains ++ back.chains⟩ := by
  obtain ⟨frontChains, readFront, rfl⟩ := map_eq_ok.mp readFirst
  have joined : (first ++ "," ++ second).toList = first.toList ++ ',' :: second.toList := by
    simp
  rw [read, joined, Parser.chains_append readFront, read]
  cases Parser.chains second.toList <;> rfl

/-- The selector of two texts with a comma between them has the chains of both. -/
theorem read_comma {first second : String} {front back : Selector}
    (readFirst : read first = .ok front) (readSecond : read second = .ok back) :
    read (first ++ "," ++ second) = .ok ⟨front.chains ++ back.chains⟩ := by
  rw [read_append readFirst, readSecond]
  rfl

/-- A text that is one attribute test in brackets is the selector of that test. -/
theorem read_of_attribute {text : String} {cs : List Char} {test : Attribute}
    (opens : text.toList = '[' :: cs) (reads : Parser.attributeTest cs = .ok (test, [])) :
    read text = .ok ⟨[[⟨.descendant, none, none, [], [test], []⟩]]⟩ := by
  have readTest : Parser.test? ('[' :: cs) = some (.ok (.compare test, [])) := by
    rw [Parser.test?, reads]
    rfl
  have readPart : Parser.part .descendant (Text.skipBlanks ('[' :: cs)) =
      .ok (⟨.descendant, none, none, [], [test], []⟩, []) := by
    have noTag : Parser.tag ('[' :: cs) = (none, '[' :: cs) := rfl
    rw [Parser.skipBlanks_of_not_blank cs (by decide), Parser.part, noTag,
      Parser.tests_of_test readTest, Parser.tests_of_none rfl]
    rfl
  have readChain : Parser.chain ('[' :: cs) = .ok ([⟨.descendant, none, none, [], [test], []⟩], []) := by
    rw [Parser.chain, Parser.skipBlanks_of_not_blank cs (by decide)]
    exact Parser.parts_of_end readPart rfl
  rw [read, opens, Parser.chains_of_end readChain rfl]
  rfl

theorem parse_eq_ok {text : String} {selector : Selector} :
    parse text = .ok selector ↔ read text = .ok selector := by
  rw [parse]
  cases read text <;> simp

end Arbor.Selector
