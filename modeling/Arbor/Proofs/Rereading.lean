import Arbor.Proofs.Quoting
import Arbor.Proofs.WellRead
import Arbor.Selector.Printer

/-! # Canonical texts read back, part by part

What is read off the canonical text of a test is a function of the test alone, whatever follows: the name
of an attribute test takes from the text of its operator what may belong to a name, and quoted texts come
back character by character. All else of a part comes back as it was. -/

namespace Arbor

namespace Text

/-- A character of one set is not in another if their ranges lie apart. -/
theorem Ranges.not_contains_of_apart {first second : Ranges}
    (apart : ∀ a ∈ first, ∀ b ∈ second, a.2 < b.1 ∨ b.2 < a.1) {c : Char}
    (isFirst : first.contains c = true) : second.contains c = false := by
  rw [← Bool.not_eq_true, contains_eq_true_iff]
  rintro ⟨b, isRange, low, high⟩
  obtain ⟨a, isOther, lowOther, highOther⟩ := contains_eq_true_iff.mp isFirst
  obtain before | after := apart a isOther b isRange
  · omega
  · omega

private theorem isBlank_of_isAlphanum {c : Char} (alphanum : c.isAlphanum = true) :
    isBlank c = false := by
  have bounds : (65 ≤ c.toNat ∧ c.toNat ≤ 90) ∨ (97 ≤ c.toNat ∧ c.toNat ≤ 122) ∨
      (48 ≤ c.toNat ∧ c.toNat ≤ 57) := by
    obtain letter | digit := Bool.or_eq_true_iff.mp alphanum
    · obtain upper | lower := Bool.or_eq_true_iff.mp letter
      · have inRange : c.val ≥ 'A'.val ∧ c.val ≤ 'Z'.val := of_decide_eq_true upper
        exact .inl inRange
      · obtain ⟨low, high⟩ := Bool.and_eq_true_iff.mp lower
        exact .inr (.inl ⟨of_decide_eq_true low, of_decide_eq_true high⟩)
    · obtain ⟨low, high⟩ := Bool.and_eq_true_iff.mp digit
      exact .inr (.inr ⟨of_decide_eq_true low, of_decide_eq_true high⟩)
  have inRanges : Ranges.contains [(48, 57), (65, 90), (97, 122)] c = true := by
    simp only [Ranges.contains_eq_true_iff, List.mem_cons, List.not_mem_nil, or_false, exists_eq_or_imp,
      exists_eq_left]
    omega
  exact Ranges.not_contains_of_apart (by decide) inRanges

private theorem isBlank_of_isAlphanumeric {c : Char} (alphanumeric : isAlphanumeric c = true) :
    isBlank c = false := by
  rw [isAlphanumeric] at alphanumeric
  split at alphanumeric
  · exact isBlank_of_isAlphanum alphanumeric
  · exact Ranges.not_contains_of_apart (by decide +kernel) alphanumeric

end Text

namespace Selector.Parser

open Text

theorem isBlank_of_isNameChar {c : Char} (isName : isNameChar c = true) : isBlank c = false := by
  simp only [isNameChar, Bool.or_eq_true, beq_iff_eq] at isName
  obtain ((alphanumeric | rfl) | rfl) | rfl := isName
  · exact isBlank_of_isAlphanumeric alphanumeric
  · decide
  · decide
  · decide

private theorem bounds_of_isOperatorChar {c : Char} (isOperator : isOperatorChar c = true) :
    33 ≤ c.toNat ∧ c.toNat ≤ 126 := by
  simp only [isOperatorChar, isMark, Bool.and_eq_true, decide_eq_true_eq] at isOperator
  obtain ⟨⟨⟨⟨⟨⟨low, high⟩, _⟩, _⟩, _⟩, _⟩, _⟩ := isOperator
  exact ⟨low, high⟩

private theorem isBlank_of_isOperatorChar {c : Char} (isOperator : isOperatorChar c = true) :
    isBlank c = false := by
  have inRange : Ranges.contains [(33, 126)] c = true := by
    simpa [Ranges.contains] using bounds_of_isOperatorChar isOperator
  exact Ranges.not_contains_of_apart (by decide) inRange

/-- Only two characters may stand in a name and in an operator. -/
theorem eq_of_isNameChar_of_isOperatorChar {c : Char} (isName : isNameChar c = true)
    (isOperator : isOperatorChar c = true) : c = '$' ∨ c = '-' := by
  have ascii : c.toNat < 0x80 := Nat.lt_of_le_of_lt (bounds_of_isOperatorChar isOperator).2 (by decide)
  simp only [isOperatorChar, isMark, Bool.and_eq_true, Bool.not_eq_true', bne_iff_ne] at isOperator
  obtain ⟨⟨⟨⟨⟨_, noAlphanum⟩, _⟩, _⟩, _⟩, noUnderscore⟩ := isOperator
  simp only [isNameChar, isAlphanumeric, if_pos ascii, noAlphanum, Bool.false_or, Bool.or_eq_true,
    beq_iff_eq] at isName
  obtain (underscore | dollar) | dash := isName
  · exact absurd underscore noUnderscore
  · exact .inl dollar
  · exact .inr dash

private theorem isName_of_append {front back : List Char} (isName : IsName (front ++ back)) :
    IsName front := by
  induction front with
  | nil => rfl
  | cons c front ih =>
    obtain ⟨isChar, noOperator, others⟩ := isName_cons_iff.mp isName
    refine isName_cons_iff.mpr ⟨isChar, ?_, ih others⟩
    rintro ⟨dollar, equals⟩
    refine noOperator ⟨dollar, ?_⟩
    cases front with
    | nil => contradiction
    | cons d front => exact equals

private theorem isOperator_of_append {front back : List Char}
    (isOperator : IsOperator (front ++ back)) : IsOperator back := by
  induction front with
  | nil => exact isOperator
  | cons c front ih => exact ih (isOperator_cons_iff.mp isOperator).2.2

theorem IsOperator.append {symbol : List Char} (isOperator : IsOperator symbol) {more : List Char}
    (ends : ∀ c, more.head? = some c → isOperatorChar c = false) :
    operatorChars (symbol ++ more) = (symbol, more) := by
  induction symbol with
  | nil =>
    cases more with
    | nil => rfl
    | cons c more => simp [operatorChars, ends c rfl]
  | cons c symbol ih =>
    obtain ⟨isChar, equalsLast, others⟩ := isOperator_cons_iff.mp isOperator
    rw [List.cons_append, operatorChars]
    by_cases equals : c = '='
    · have last := equalsLast equals
      subst equals last
      rfl
    · simp [isChar, equals, ih others]

/-- The operator of an attribute test stays apart from the name before it: it does not start like more of
the name, and the name does not end like more of the operator. -/
def StandsApart (name symbol : List Char) : Prop :=
  symbol.head? ≠ some '-' ∧ (symbol.head? = some '$' → symbol = ['$', '=']) ∧
    ¬ (symbol = ['='] ∧ name.getLast? = some '$')

instance (name symbol : List Char) : Decidable (StandsApart name symbol) :=
  inferInstanceAs (Decidable (_ ∧ _ ∧ _))

/-- An operator that starts with an equals sign is one. -/
theorem IsOperator.eq_equals {symbol : List Char} (isOperator : IsOperator symbol)
    (equals : symbol.head? = some '=') : symbol = ['='] := by
  obtain ⟨rest, rfl⟩ := List.head?_eq_some_iff.mp equals
  rw [(isOperator_cons_iff.mp isOperator).2.1 rfl]

/-- The operator keeps all its characters where none could belong to a name. -/
theorem IsOperator.nameChars_eq_nil_iff {symbol : List Char} (isOperator : IsOperator symbol)
    (given : symbol ≠ []) : (nameChars symbol).1 = [] ↔
      symbol.head? ≠ some '-' ∧ (symbol.head? = some '$' → symbol = ['$', '=']) := by
  obtain ⟨c, rest, rfl⟩ := List.exists_cons_of_ne_nil given
  obtain ⟨isChar, _, others⟩ := isOperator_cons_iff.mp isOperator
  rw [nameChars]
  by_cases isNamed : isNameChar c = true
  · obtain rfl | rfl := eq_of_isNameChar_of_isOperatorChar isNamed isChar
    · by_cases equals : rest.head? = some '='
      · simp [others.eq_equals equals]
      · have differs : rest ≠ ['='] := by
          rintro rfl
          exact equals rfl
        simp [isNamed, equals, differs]
    · simp [isNamed]
  · have noDollar : c ≠ '$' := by
      rintro rfl
      exact isNamed (by decide)
    have noDash : c ≠ '-' := by
      rintro rfl
      exact isNamed (by decide)
    simp [isNamed, noDollar, noDash]

/-- A name that ends in a dollar sign loses it to an equals sign that follows. -/
theorem nameChars_dollar {front : List Char} (isName : IsName (front ++ ['$'])) :
    nameChars (front ++ ['$'] ++ ['=']) = (front, ['$', '=']) := by
  have joined : nameChars (front ++ ['$', '=']) =
      (front ++ (nameChars ['$', '=']).1, (nameChars ['$', '=']).2) :=
    (isName_of_append isName).append (by simp)
  rw [List.append_assoc]
  simpa [nameChars] using joined

section Join

variable {name symbol : List Char} (isName : IsName name) (isOperator : IsOperator symbol)

include isName isOperator

private theorem isOperator_of_nameChars_append {read rest : List Char}
    (reads : nameChars (name ++ symbol) = (read, rest)) : IsOperator rest := by
  by_cases loses : name.getLast? = some '$' ∧ symbol.head? = some '='
  · obtain ⟨front, rfl⟩ := List.getLast?_eq_some_iff.mp loses.1
    rw [isOperator.eq_equals loses.2, nameChars_dollar isName] at reads
    cases reads
    rfl
  · rw [isName.append loses] at reads
    cases reads
    have whole : symbol = (nameChars symbol).1 ++ (nameChars symbol).2 := append_of_nameChars rfl
    exact isOperator_of_append (whole ▸ isOperator)

theorem nameChars_append_eq_iff (given : symbol ≠ []) :
    nameChars (name ++ symbol) = (name, symbol) ↔ StandsApart name symbol := by
  by_cases loses : name.getLast? = some '$' ∧ symbol.head? = some '='
  · have equals := isOperator.eq_equals loses.2
    refine iff_of_false ?_ fun apart => apart.2.2 ⟨equals, loses.1⟩
    obtain ⟨front, rfl⟩ := List.getLast?_eq_some_iff.mp loses.1
    rw [equals, nameChars_dollar isName]
    simp
  · have keeps : ¬ (symbol = ['='] ∧ name.getLast? = some '$') := by
      rintro ⟨rfl, dollar⟩
      exact loses ⟨dollar, rfl⟩
    have whole : symbol = (nameChars symbol).1 ++ (nameChars symbol).2 := append_of_nameChars rfl
    rw [isName.append loses, StandsApart, ← and_assoc, ← isOperator.nameChars_eq_nil_iff given]
    constructor
    · intro same
      exact ⟨by simpa using (Prod.mk.inj same).1, keeps⟩
    · rintro ⟨nothing, _⟩
      rw [nothing, List.nil_append] at whole
      rw [nothing, List.append_nil, ← whole]

end Join

end Selector.Parser

open Selector Selector.Parser

/-- What a reader makes of a quoted text. -/
def Text.rereadText (text : String) : String := String.ofList (text.toList.flatMap reread)

open Text

/-- What a reader makes of the canonical text of an attribute test. -/
def Attribute.reread (test : Attribute) : Except Problem Attribute :=
  match test.comparison with
  | none => .ok test
  | some (operator, value) =>
    match Parser.name .expectedAttributeName (test.name.toList ++ operator.symbol.toList) with
    | .error problem => .error problem
    | .ok (name, []) => .error (.expectedOperator name)
    | .ok (name, symbol) => .ok ⟨name, some (.ofSymbol (String.ofList symbol), rereadText value)⟩

def Pseudo.reread (test : Pseudo) : Pseudo := ⟨test.name, test.argument.map rereadText⟩

namespace Selector.Parser

/-- What a reader makes of the canonical text of a test. -/
def Test.reread : Test → Except Problem Test
  | .type name => .ok (.type name)
  | .field name => .ok (.field name)
  | .compare test => test.reread.map .compare
  | .pseudo test => .ok (.pseudo test.reread)

/-- The canonical text of a test. -/
def Test.chars : Test → List Char
  | .type name => '#' :: name.toList
  | .field name => '.' :: name.toList
  | .compare test => test.chars
  | .pseudo test => test.chars

private theorem rereadText_ne_empty {text : String} (nonempty : text ≠ "") :
    rereadText text ≠ "" := by
  intro nothing
  have none : (text.toList.flatMap reread).length = 0 := by
    simpa [rereadText] using congrArg (fun read => read.toList.length) nothing
  have bound := length_le_flatMap_reread text.toList
  have noChars : text.toList = [] := List.length_eq_zero_iff.mp (by omega)
  exact nonempty (String.toList_eq_nil_iff.mp noChars)

private theorem value_quoteChars (close : Char) (text : String) (rest : List Char) :
    value close (quoteChars text.toList ++ rest) = .ok (rereadText text, rest) := by
  rw [quoteChars, List.cons_append, List.cons_append, List.append_assoc, value]
  simp only [List.singleton_append, quoted_quoteChars]
  rfl

private theorem skipBlanks_quoteChars (text : String) (rest : List Char) :
    skipBlanks (quoteChars text.toList ++ rest) = quoteChars text.toList ++ rest :=
  skipBlanks_of_not_blank _ (by decide)

theorem IsNamed.skipBlanks {named : String} (isNamed : IsNamed named) (rest : List Char) :
    Text.skipBlanks (named.toList ++ rest) = named.toList ++ rest := by
  obtain ⟨nonempty, isName⟩ := isNamed
  obtain ⟨c, cs, isCons⟩ := List.exists_cons_of_ne_nil nonempty
  rw [isCons] at isName ⊢
  exact skipBlanks_of_not_blank _ (isBlank_of_isNameChar (isName_cons_iff.mp isName).1)

private theorem name_append_of_endsName (problem : Problem) (cs : List Char) {more : List Char}
    (ends : EndsName more) : name problem (cs ++ more) =
      (name problem cs).map fun (named, rest) => (named, rest ++ more) := by
  rw [name, name, nameChars_append_of_endsName cs ends]
  rcases nameChars cs with ⟨chars, rest⟩
  cases chars <;> rfl

theorem IsNamed.name_append {named : String} (isNamed : IsNamed named) (problem : Problem)
    {more : List Char} (ends : EndsName more) : name problem (named.toList ++ more) = .ok (named, more) :=
  name_eq_ok_iff.mpr ⟨isNamed.1, isNamed.2.append_of_endsName ends⟩

private theorem endsName_cons {c : Char} (noName : isNameChar c = false) (noEquals : c ≠ '=')
    (rest : List Char) : EndsName (c :: rest) := by
  rintro d same
  cases same
  exact ⟨noName, noEquals⟩

/-- The comparison of an attribute test is read off whole. -/
theorem comparison_chars (named : String) {symbol : List Char} (given : symbol ≠ [])
    (isOperator : IsOperator symbol) (text : String) (rest : List Char) :
    comparison named (symbol ++ (quoteChars text.toList ++ ']' :: rest)) =
      .ok ((.ofSymbol (String.ofList symbol), rereadText text), rest) := by
  have ends (c : Char) (isHead : (quoteChars text.toList ++ ']' :: rest).head? = some c) :
      isOperatorChar c = false := by
    cases isHead
    decide
  rw [comparison, isOperator.append ends]
  split
  · next same => exact absurd (Prod.mk.inj same).1 given
  · next same =>
    cases same
    rw [skipBlanks_quoteChars, value_quoteChars]
    rfl

private theorem attributeTest_of_name {cs rest : List Char} {named : String}
    (readName : name .expectedAttributeName (skipBlanks cs) = .ok (named, rest))
    (solid : skipBlanks rest = rest) (isOpen : rest.head? ≠ some ']') : attributeTest cs =
      (comparison named rest).map fun (comparison, rest) => (⟨named, some comparison⟩, rest) := by
  rw [attributeTest, readName]
  simp only [solid]
  split
  · simp at isOpen
  · rfl

private theorem attributeTest_chars {named : String} (isNamed : IsNamed named) {operator : Operator}
    (isOperator : IsOperator operator.symbol.toList) (text : String) (rest : List Char) :
    attributeTest (named.toList ++ (operator.symbol.toList ++ (quoteChars text.toList ++ ']' :: rest))) =
      (Attribute.reread ⟨named, some (operator, text)⟩).map fun read => (read, rest) := by
  have ends : EndsName (quoteChars text.toList ++ ']' :: rest) :=
    endsName_cons (by decide) (by decide) _
  have readName := name_append_of_endsName .expectedAttributeName
    (named.toList ++ operator.symbol.toList) ends
  rw [List.append_assoc, ← isNamed.skipBlanks] at readName
  cases reads : name .expectedAttributeName (named.toList ++ operator.symbol.toList) with
  | error problem =>
    rw [reads] at readName
    simp only [attributeTest, readName, Attribute.reread, reads]
    rfl
  | ok parted =>
    obtain ⟨read, symbol⟩ := parted
    rw [reads] at readName
    have isSymbol : IsOperator symbol :=
      isOperator_of_nameChars_append isNamed.2 isOperator (name_eq_ok_iff.mp reads).2
    cases symbol with
    | nil =>
      -- The name took the whole operator, so the quote stands where an operator is expected.
      rw [attributeTest_of_name readName (skipBlanks_quoteChars _ _) (by simp [quoteChars])]
      simp only [Attribute.reread, reads]
      rfl
    | cons c symbol =>
      have isChar := (isOperator_cons_iff.mp isSymbol).1
      have isOpen : c ≠ ']' := by
        rintro rfl
        exact absurd isChar (by decide)
      rw [attributeTest_of_name readName (skipBlanks_of_not_blank _ (isBlank_of_isOperatorChar isChar))
        (by simpa using isOpen), comparison_chars read (List.cons_ne_nil _ _) isSymbol]
      simp only [Attribute.reread, reads]
      rfl

private theorem test?_attribute {test : Attribute} (wellRead : test.WellRead) (rest : List Char) :
    test? (test.chars ++ rest) = some (test.reread.map fun read => (.compare read, rest)) := by
  obtain ⟨named, comparison⟩ := test
  obtain ⟨isNamed, operatorRead⟩ := wellRead
  cases comparison with
  | none =>
    have written : Attribute.chars ⟨named, none⟩ ++ rest = '[' :: (named.toList ++ ']' :: rest) := by
      simp [Attribute.chars]
    have ends : EndsName (']' :: rest) := endsName_cons (by decide) (by decide) rest
    rw [written, test?, attributeTest, isNamed.skipBlanks, isNamed.name_append _ ends]
    rfl
  | some compared =>
    obtain ⟨operator, text⟩ := compared
    have written : Attribute.chars ⟨named, some (operator, text)⟩ ++ rest =
        '[' :: (named.toList ++ (operator.symbol.toList ++ (quoteChars text.toList ++ ']' :: rest))) := by
      simp [Attribute.chars]
    rw [written, test?, attributeTest_chars isNamed (operatorRead operator text rfl).2.1]
    cases Attribute.reread ⟨named, some (operator, text)⟩ <;> rfl

private theorem test?_pseudo {test : Pseudo} (wellRead : test.WellRead) {rest : List Char}
    (ends : EndsName rest) (noArgument : rest.head? ≠ some '(') :
    test? (test.chars ++ rest) = some (.ok (.pseudo test.reread, rest)) := by
  obtain ⟨named, argument⟩ := test
  obtain ⟨isNamed, argumentRead⟩ := wellRead
  cases argument with
  | none =>
    have readName := isNamed.name_append .expectedPseudoName ends
    rw [Pseudo.chars, List.cons_append, test?, pseudo_of_name readName noArgument]
    rfl
  | some text =>
    have written : Pseudo.chars ⟨named, some text⟩ ++ rest =
        ':' :: (named.toList ++ '(' :: (quoteChars text.toList ++ ')' :: rest)) := by
      simp [Pseudo.chars]
    have readName := isNamed.name_append .expectedPseudoName
      (endsName_cons (by decide) (by decide) (quoteChars text.toList ++ ')' :: rest) :
        EndsName ('(' :: (quoteChars text.toList ++ ')' :: rest)))
    have readArgument : Parser.argument named (quoteChars text.toList ++ ')' :: rest) =
        .ok (some (rereadText text), rest) := by
      have nonempty := rereadText_ne_empty (argumentRead text rfl)
      rw [Parser.argument, skipBlanks_quoteChars, value_quoteChars]
      simp [skipBlanks_of_not_blank rest (show isBlank ')' = false by decide), nonempty]
    rw [written, test?, pseudo, readName]
    simp only [readArgument]
    rfl

/-- No test goes on with the text. -/
def EndsTest (cs : List Char) : Prop := EndsName cs ∧ cs.head? ≠ some '('

theorem EndsPart.endsTest {cs : List Char} (ends : EndsPart cs) : EndsTest cs := by
  refine ⟨ends.endsName, fun opens => ?_⟩
  obtain bad | bad := ends '(' opens <;> contradiction

theorem Test.chars_eq_cons (test : Test) :
    ∃ mark ∈ ['#', '.', '[', ':'], ∃ rest, test.chars = mark :: rest := by
  cases test with
  | type name => exact ⟨'#', by decide, _, rfl⟩
  | field name => exact ⟨'.', by decide, _, rfl⟩
  | compare test =>
    obtain ⟨named, _ | _⟩ := test
    · exact ⟨'[', by decide, _, rfl⟩
    · exact ⟨'[', by decide, _, rfl⟩
  | pseudo test =>
    obtain ⟨named, _ | _⟩ := test
    · exact ⟨':', by decide, _, rfl⟩
    · exact ⟨':', by decide, _, rfl⟩

/-- A test ends where another one starts, or the part ends. -/
theorem endsTest_flatMap_chars (tests : List Test) {rest : List Char} (ends : EndsPart rest) :
    EndsTest (tests.flatMap Test.chars ++ rest) := by
  cases tests with
  | nil => exact ends.endsTest
  | cons test others =>
    obtain ⟨mark, isMark, after, written⟩ := test.chars_eq_cons
    have apart : isNameChar mark = false ∧ mark ≠ '=' ∧ mark ≠ '(' := by
      simp only [List.mem_cons, List.not_mem_nil, or_false] at isMark
      obtain rfl | rfl | rfl | rfl := isMark <;> decide
    obtain ⟨noName, noEquals, noArgument⟩ := apart
    rw [List.flatMap_cons, written]
    exact ⟨endsName_cons noName noEquals _, by simpa using noArgument⟩

private theorem test?_chars {test : Test} (wellRead : test.WellRead) {rest : List Char}
    (ends : EndsTest rest) :
    test? (test.chars ++ rest) = some (test.reread.map fun read => (read, rest)) := by
  cases test with
  | type named =>
    have isNamed : IsNamed named := wellRead
    rw [Test.chars, List.cons_append, test?, isNamed.name_append _ ends.1]
    rfl
  | field named =>
    have isNamed : IsNamed named := wellRead
    rw [Test.chars, List.cons_append, test?, isNamed.name_append _ ends.1]
    rfl
  | compare test =>
    rw [Test.chars, test?_attribute wellRead, Test.reread]
    cases test.reread <;> rfl
  | pseudo test => exact test?_pseudo wellRead ends.1 ends.2

private theorem tests_of_error {cs : List Char} {problem : Problem}
    (found : test? cs = some (.error problem)) : tests cs = .error problem := by
  rw [tests]
  split <;> simp_all

/-- The canonical texts of tests are read back one by one. -/
theorem tests_flatMap_chars {tests : List Test} (wellRead : ∀ test ∈ tests, test.WellRead)
    {rest : List Char} (ends : EndsPart rest) :
    Parser.tests (tests.flatMap Test.chars ++ rest) =
      (tests.mapM Test.reread).map fun read => (read, rest) := by
  induction tests with
  | nil => exact tests_of_none (test?_of_endsPart ends)
  | cons test others ih =>
    obtain ⟨first, later⟩ := List.forall_mem_cons.mp wellRead
    have found := test?_chars first (endsTest_flatMap_chars others ends)
    rw [List.flatMap_cons, List.append_assoc, List.mapM_cons]
    cases reads : test.reread with
    | error problem =>
      rw [reads] at found
      rw [tests_of_error found]
      rfl
    | ok read =>
      rw [reads] at found
      rw [tests_of_test found, ih later]
      cases others.mapM Test.reread <;> rfl

end Selector.Parser

namespace Part

/-- The tests of a part, in the order in which they are written. -/
def tests (part : Part) : List Test :=
  part.id.toList.map .type ++ part.classes.map .field ++ part.attributes.map .compare
    ++ part.pseudos.map .pseudo

def body (part : Part) : List Char := part.tagChars ++ part.tests.flatMap Test.chars

/-- What a reader makes of the canonical text of a part. -/
def reread (part : Part) : Except Problem Part :=
  (part.attributes.mapM Attribute.reread).map fun attributes =>
    { part with attributes, pseudos := part.pseudos.map Pseudo.reread }

theorem chars_eq_body (part : Part) : part.chars = part.combinatorChars ++ part.body := by
  have typed : part.idChars = (part.id.toList.map Test.type).flatMap Test.chars := by
    rw [idChars]
    cases part.id <;> simp [Test.chars]
  simp only [chars, body, tests, typed, List.flatMap_append, List.flatMap_map, List.append_assoc]
  rfl

theorem WellRead.tests {part : Part} (wellRead : part.WellRead) : ∀ test ∈ part.tests, test.WellRead := by
  intro test isTest
  simp only [Part.tests, List.mem_append, List.mem_map, Option.mem_toList] at isTest
  obtain ((⟨named, isId, rfl⟩ | ⟨named, isField, rfl⟩) | ⟨compared, isAttribute, rfl⟩) |
    ⟨asked, isPseudo, rfl⟩ := isTest
  · exact wellRead.id named isId
  · exact wellRead.classes named isField
  · exact wellRead.attributes compared isAttribute
  · exact wellRead.pseudos asked isPseudo

end Part

namespace Selector.Parser

private theorem mapM_eq_map {α β : Type} {items : List α} {read : α → Except Problem β}
    {change : α → β} (succeeds : ∀ item, read item = .ok (change item)) :
    items.mapM read = .ok (items.map change) := by
  induction items with
  | nil => rfl
  | cons item items ih =>
    rw [List.mapM_cons, succeeds, ih]
    rfl

private theorem mapM_compare_reread (tests : List Attribute) :
    (tests.map Test.compare).mapM Test.reread =
    (tests.mapM Attribute.reread).map (List.map Test.compare) := by
  induction tests with
  | nil => rfl
  | cons test tests ih =>
    rw [List.map_cons, List.mapM_cons, List.mapM_cons, ih, Test.reread]
    cases test.reread with
    | error problem => rfl
    | ok read => cases tests.mapM Attribute.reread <;> rfl

/-- Of the tests of a part, only its attribute tests may fail to be read back. -/
theorem mapM_tests_reread (part : Part) : part.tests.mapM Test.reread =
    part.reread.map Part.tests := by
  have types : (part.id.toList.map Test.type).mapM Test.reread = .ok (part.id.toList.map Test.type) := by
    rw [List.mapM_map]
    exact mapM_eq_map fun _ => rfl
  have fields : (part.classes.map Test.field).mapM Test.reread = .ok (part.classes.map Test.field) := by
    rw [List.mapM_map]
    exact mapM_eq_map fun _ => rfl
  have asked : (part.pseudos.map Test.pseudo).mapM Test.reread =
      .ok ((part.pseudos.map Pseudo.reread).map Test.pseudo) := by
    rw [List.mapM_map, List.map_map]
    exact mapM_eq_map fun _ => rfl
  rw [Part.tests, List.mapM_append, List.mapM_append, List.mapM_append, types, fields, asked,
    mapM_compare_reread, Part.reread]
  cases part.attributes.mapM Attribute.reread <;> rfl

private theorem filterMap_tests (part : Part) :
    part.tests.filterMap Test.type? = part.id.toList ∧
      part.tests.filterMap Test.field? = part.classes ∧
      part.tests.filterMap Test.attribute? = part.attributes ∧
      part.tests.filterMap Test.pseudo? = part.pseudos := by
  have dropped {α β : Type} (items : List α) : items.filterMap (fun _ => (none : Option β)) = [] :=
    List.filterMap_eq_nil_iff.mpr fun _ _ => rfl
  simp only [Part.tests, List.filterMap_append, List.filterMap_map]
  simp [Function.comp_def, Test.type?, Test.field?, Test.attribute?, Test.pseudo?, dropped]

/-- The tests of a part with its tag make up the part. -/
theorem assemble_tests (part : Part)
    (lower : ∀ tag, part.tag = some tag → part.id = none → startsUpper tag = false) :
    assemble part.combinator part.tag part.tests = part := by
  obtain ⟨types, fields, compared, asked⟩ := filterMap_tests part
  have last : part.id.toList.getLast? = part.id := by cases part.id <;> rfl
  have untyped : (part.id.isNone && part.tag.any startsUpper) = false := by
    cases isId : part.id with
    | some id => rfl
    | none =>
      cases isTag : part.tag with
      | none => rfl
      | some tag => simpa using lower tag isTag isId
  rw [assemble, types, fields, compared, asked, last]
  simp [untyped]

/-- The tag of a part is read back, a star as none. -/
theorem tag_body {part : Part} (wellRead : part.WellRead) {rest : List Char} (ends : EndsPart rest) :
    tag (part.body ++ rest) = (part.tag, part.tests.flatMap Test.chars ++ rest) := by
  have after := (endsTest_flatMap_chars part.tests ends).1
  rw [Part.body, Part.tagChars, List.append_assoc]
  cases isTag : part.tag with
  | some named =>
    obtain ⟨nonempty, isName⟩ := wellRead.tag named isTag
    have noStar : (named.toList ++ (part.tests.flatMap Test.chars ++ rest)).head? ≠ some '*' := by
      obtain ⟨c, cs, isCons⟩ := List.exists_cons_of_ne_nil nonempty
      rw [isCons] at isName ⊢
      intro star
      have isChar := (isName_cons_iff.mp isName).1
      rw [Option.some.inj star] at isChar
      exact absurd isChar (by decide)
    rw [tag_of_not_star noStar, isName.append_of_endsName after, if_neg nonempty, String.ofList_toList]
  | none =>
    cases isId : part.id with
    | none => rfl
    | some id =>
      have noStar : (part.tests.flatMap Test.chars ++ rest).head? ≠ some '*' := by
        simp [Part.tests, isId, Test.chars]
      simp only [List.nil_append]
      rw [tag_of_not_star noStar, nameChars_of_endsName after, if_pos rfl]

private theorem body_ne_nil {part : Part} (wellRead : part.WellRead) : part.body ≠ [] := by
  intro nothing
  obtain ⟨noTag, noTests⟩ := List.append_eq_nil_iff.mp nothing
  rw [Part.tagChars] at noTag
  split at noTag
  · next named isTag => exact (wellRead.tag named isTag).1 noTag
  · contradiction
  · next isId => simp [Part.tests, isId, Test.chars] at noTests

/-- The canonical text of a part is read back as far as its attribute tests and arguments are. -/
theorem part_body {part : Part} (wellRead : part.WellRead) {rest : List Char} (ends : EndsPart rest) :
    Parser.part part.combinator (part.body ++ rest) = part.reread.map fun read => (read, rest) := by
  have nonempty := List.length_pos_iff.mpr (body_ne_nil wellRead)
  have shorter : rest.length < (part.body ++ rest).length := by
    rw [List.length_append]
    omega
  rw [Parser.part, tag_body wellRead ends, tests_flatMap_chars wellRead.tests ends, mapM_tests_reread]
  cases attributesRead : part.attributes.mapM Attribute.reread with
  | error problem =>
    rw [Part.reread, attributesRead]
    rfl
  | ok attributes =>
    have assembled : assemble part.combinator part.tag
        (Part.tests { part with attributes, pseudos := part.pseudos.map Pseudo.reread }) =
          { part with attributes, pseudos := part.pseudos.map Pseudo.reread } :=
      assemble_tests { part with attributes, pseudos := part.pseudos.map Pseudo.reread } wellRead.lower
    rw [Part.reread, attributesRead]
    simp only [Except.map, if_pos shorter, assembled]

end Selector.Parser
end Arbor
