import Arbor.Scalar
import Mathlib.Data.List.Basic
import Mathlib.Data.List.TakeWhile

/-! # Texts that read as numbers

The value of a selector is a number if its text, blanks around it left out, is empty, or an unsigned
numeral of another radix behind its mark, or `Infinity` or a decimal numeral with at most one sign. The
numerals are given here as a grammar. Reading takes maximal runs of digits instead of trying all ways to
split a text; that it finds a way whenever there is one is because no part starts with a digit that could
have belonged to the part before it. -/

namespace Arbor

namespace Text

/-- The second text is the first without the blanks around it. -/
structure Trims (cs core : List Char) : Prop where
  around : ∃ before after, cs = before ++ core ++ after ∧ ∀ c ∈ before ++ after, isBlank c = true
  first : ∀ c ∈ core.head?, isBlank c = false
  last : ∀ c ∈ core.getLast?, isBlank c = false

/-- One or more characters of the alphabet. -/
def Run (alphabet : String) (cs : List Char) : Prop := cs ≠ [] ∧ ∀ c ∈ cs, c ∈ alphabet.toList

end Text

namespace Decimal

abbrev Digits : List Char → Prop := Text.Run "0123456789"

/-- At most one sign. -/
inductive IsSign : List Char → Prop where
  | none : IsSign []
  | plus : IsSign ['+']
  | minus : IsSign ['-']

/-- At most one exponent: a mark, a sign or none, and digits. -/
inductive IsExponent : List Char → Prop where
  | none : IsExponent []
  | some {mark : Char} {sign digits : List Char} (isMark : mark = 'e' ∨ mark = 'E') (isSign : IsSign sign)
      (isDigits : Digits digits) : IsExponent (mark :: (sign ++ digits))

/-- An unsigned decimal numeral: digits, which a point and more digits may follow, or a point and digits;
then at most one exponent. -/
inductive IsDecimal : List Char → Prop where
  | whole {digits exponent : List Char} (isDigits : Digits digits) (isExponent : IsExponent exponent) :
      IsDecimal (digits ++ exponent)
  | pointed {digits fraction exponent : List Char} (isDigits : Digits digits)
      (isFraction : fraction = [] ∨ Digits fraction) (isExponent : IsExponent exponent) :
      IsDecimal (digits ++ '.' :: (fraction ++ exponent))
  | fraction {digits exponent : List Char} (isDigits : Digits digits) (isExponent : IsExponent exponent) :
      IsDecimal ('.' :: (digits ++ exponent))

end Decimal

namespace Scalar

/-- The marks of a radix after a zero, with the digits of the radix. -/
def radixMarks : List (Char × String) :=
  [('x', "0123456789abcdefABCDEF"), ('X', "0123456789abcdefABCDEF"), ('o', "01234567"),
    ('O', "01234567"), ('b', "01"), ('B', "01")]

/-- A text that reads as a number when there are no blanks around it. -/
inductive IsNumeral : List Char → Prop where
  | blank : IsNumeral []
  | radix {mark : Char} {alphabet : String} {digits : List Char} (isMark : (mark, alphabet) ∈ radixMarks)
      (isDigits : Text.Run alphabet digits) : IsNumeral ('0' :: mark :: digits)
  | infinity {sign : List Char} (isSign : Decimal.IsSign sign) : IsNumeral (sign ++ "Infinity".toList)
  | decimal {sign cs : List Char} (isSign : Decimal.IsSign sign) (isDecimal : Decimal.IsDecimal cs) :
      IsNumeral (sign ++ cs)

/-- What a text stands for that does not read as a number. -/
def ofWord (s : String) : Scalar :=
  if s = "true" then .boolean true
  else if s = "false" then .boolean false
  else if s = "null" then .null
  else if s = "undefined" then .undefined
  else .string s

end Scalar

namespace Text

private theorem isDigit_iff {c : Char} : c.isDigit = true ↔ 48 ≤ c.toNat ∧ c.toNat ≤ 57 := by
  simp only [Char.isDigit, Bool.and_eq_true, decide_eq_true_eq, ge_iff_le, UInt32.le_iff_toNat_le]
  rfl

private theorem isDigit_iff_mem {c : Char} : c.isDigit = true ↔ c ∈ "0123456789".toList := by
  simp only [isDigit_iff, String.reduceToList, List.mem_cons, ↓Char.isValue, ← Char.toNat_inj,
    Char.reduceToNat, List.not_mem_nil, or_false]
  omega

end Text

namespace Decimal

/-- The text without a sign in front. -/
def unsigned : List Char → List Char
  | '-' :: rest => rest
  | '+' :: rest => rest
  | cs => cs

private theorem unsigned_of_no_sign {cs : List Char} (noMinus : ∀ rest, cs ≠ '-' :: rest)
    (noPlus : ∀ rest, cs ≠ '+' :: rest) : unsigned cs = cs := by
  rw [unsigned.eq_def]
  split
  · next rest => exact absurd rfl (noMinus rest)
  · next rest => exact absurd rfl (noPlus rest)
  · rfl

/-- Where bodies start with no sign, a text is a body behind at most one sign exactly if it is one once a
sign in front is taken off. -/
theorem exists_sign_iff {Body : List Char → Prop} (noPlus : ∀ rest, ¬ Body ('+' :: rest))
    (noMinus : ∀ rest, ¬ Body ('-' :: rest)) {cs : List Char} :
    (∃ sign body, IsSign sign ∧ Body body ∧ cs = sign ++ body) ↔ Body (unsigned cs) := by
  constructor
  · rintro ⟨sign, body, isSign, isBody, rfl⟩
    cases isSign with
    | plus => exact isBody
    | minus => exact isBody
    | none =>
      rw [List.nil_append, unsigned_of_no_sign]
      · exact isBody
      · rintro rest rfl
        exact noMinus rest isBody
      · rintro rest rfl
        exact noPlus rest isBody
  · intro isBody
    rw [unsigned.eq_def] at isBody
    split at isBody
    · exact ⟨_, _, .minus, isBody, rfl⟩
    · exact ⟨_, _, .plus, isBody, rfl⟩
    · exact ⟨_, _, .none, isBody, rfl⟩

private theorem digits_iff {cs : List Char} : Digits cs ↔ cs ≠ [] ∧ ∀ c ∈ cs, c.isDigit = true := by
  simp only [Text.isDigit_iff_mem]
  rfl

private theorem not_digits_of_head {c : Char} (noDigit : c.isDigit = false) (rest : List Char) :
    ¬ Digits (c :: rest) := by
  intro digits
  have isDigit := (digits_iff.mp digits).2 c List.mem_cons_self
  rw [noDigit] at isDigit
  contradiction

private theorem digits_takeWhile {cs : List Char} (nonempty : cs.takeWhile Char.isDigit ≠ []) :
    Digits (cs.takeWhile Char.isDigit) :=
  digits_iff.mpr ⟨nonempty, fun _ => List.mem_takeWhile_imp⟩

/-- Digits and what starts with none are told apart again. -/
theorem takeWhile_digits {digits rest : List Char} (each : ∀ c ∈ digits, c.isDigit = true)
    (stops : ∀ c ∈ rest.head?, c.isDigit = false) :
    (digits ++ rest).takeWhile Char.isDigit = digits ∧ (digits ++ rest).dropWhile Char.isDigit = rest := by
  rw [List.takeWhile_append_of_pos each, List.dropWhile_append_of_pos each]
  cases rest with
  | nil => simp
  | cons c rest =>
    have noDigit : ¬ c.isDigit = true := by simpa using stops c rfl
    rw [List.takeWhile_cons_of_neg noDigit, List.dropWhile_cons_of_neg noDigit]
    exact ⟨List.append_nil _, rfl⟩

theorem isSome_exponent?_iff {cs : List Char} : (exponent? cs).isSome = true ↔ Digits (unsigned cs) := by
  unfold exponent?
  split
  next negative digits parts =>
  have behindSign : digits = unsigned cs := by
    split at parts
    · cases parts
      rfl
    · cases parts
      rfl
    · next noMinus noPlus =>
      cases parts
      exact (unsigned_of_no_sign noMinus noPlus).symm
  rw [← behindSign, digits_iff]
  split
  · next fails => simpa [or_iff_not_imp_left] using fails
  · next passes => simpa using passes

private theorem isExponent_cons_iff {c : Char} {rest : List Char} :
    IsExponent (c :: rest) ↔ (c = 'e' ∨ c = 'E') ∧ (exponent? rest).isSome = true := by
  have noPlus : ∀ rest, ¬ Digits ('+' :: rest) := not_digits_of_head rfl
  have noMinus : ∀ rest, ¬ Digits ('-' :: rest) := not_digits_of_head rfl
  rw [isSome_exponent?_iff, ← exists_sign_iff noPlus noMinus]
  constructor
  · rintro (_ | ⟨isMark, isSign, isDigits⟩)
    exact ⟨isMark, _, _, isSign, isDigits, rfl⟩
  · rintro ⟨isMark, sign, digits, isSign, isDigits, rfl⟩
    exact .some isMark isSign isDigits

/-- What may follow digits does not start with one, nor with a point. -/
theorem IsExponent.head {cs : List Char} (exponent : IsExponent cs) :
    ∀ c ∈ cs.head?, c.isDigit = false ∧ c ≠ '.' := by
  cases exponent with
  | none => simp
  | some isMark isSign isDigits =>
    rintro c ⟨⟩
    obtain rfl | rfl := isMark <;> decide

section Decimals

/-- The literal with the given digits, if there are any, when nothing but an exponent is behind them. -/
def Literal.close? (whole fraction tail : List Char) : Option Literal :=
  if whole.isEmpty && fraction.isEmpty then none
  else match tail with
    | [] => some ⟨whole, fraction, 0⟩
    | c :: rest =>
      if c == 'e' || c == 'E' then (exponent? rest).map fun power => ⟨whole, fraction, power⟩ else none

theorem Literal.read?_of_point {cs more : List Char} (point : cs.dropWhile Char.isDigit = '.' :: more) :
    Literal.read? cs = Literal.close? (cs.takeWhile Char.isDigit) (more.takeWhile Char.isDigit)
      (more.dropWhile Char.isDigit) := by
  unfold Literal.read?
  rw [point]
  rfl

theorem Literal.read?_of_no_point {cs : List Char}
    (noPoint : ∀ more, cs.dropWhile Char.isDigit ≠ '.' :: more) :
    Literal.read? cs = Literal.close? (cs.takeWhile Char.isDigit) [] (cs.dropWhile Char.isDigit) := by
  unfold Literal.read?
  dsimp only
  split
  · next more point => exact absurd point (noPoint more)
  · rfl

theorem Literal.isSome_close?_iff {whole fraction tail : List Char} :
    (Literal.close? whole fraction tail).isSome = true ↔
      (whole ≠ [] ∨ fraction ≠ []) ∧ IsExponent tail := by
  unfold Literal.close?
  split
  · next noDigits =>
    have noDigits : whole = [] ∧ fraction = [] := by simpa using noDigits
    simp [noDigits]
  · next someDigits =>
    have someDigits : whole ≠ [] ∨ fraction ≠ [] := by
      simpa [or_iff_not_imp_left] using someDigits
    rw [and_iff_right someDigits]
    split
    · exact iff_of_true rfl .none
    · next c rest =>
      rw [isExponent_cons_iff]
      split
      · next isMark =>
        have isMark : c = 'e' ∨ c = 'E' := by simpa using isMark
        rw [Option.isSome_map, and_iff_right isMark]
      · next noMark =>
        have noMark : ¬ (c = 'e' ∨ c = 'E') := by simpa using noMark
        simp [noMark]

private theorem isDecimal_of_read? {cs : List Char} (read : (Literal.read? cs).isSome = true) :
    IsDecimal cs := by
  have whole : cs.takeWhile Char.isDigit ++ cs.dropWhile Char.isDigit = cs :=
    List.takeWhile_append_dropWhile
  by_cases point : ∃ more, cs.dropWhile Char.isDigit = '.' :: more
  · obtain ⟨more, point⟩ := point
    have behind : more.takeWhile Char.isDigit ++ more.dropWhile Char.isDigit = more :=
      List.takeWhile_append_dropWhile
    rw [Literal.read?_of_point point, Literal.isSome_close?_iff] at read
    obtain ⟨someDigits, exponent⟩ := read
    rw [← whole, point, ← behind]
    by_cases digits : cs.takeWhile Char.isDigit = []
    · rw [digits, List.nil_append]
      exact .fraction (digits_takeWhile (someDigits.resolve_left (not_not_intro digits))) exponent
    · refine .pointed (digits_takeWhile digits) ?_ exponent
      exact (em _).imp_right digits_takeWhile
  · rw [Literal.read?_of_no_point fun more here => point ⟨more, here⟩, Literal.isSome_close?_iff] at read
    obtain ⟨someDigits, exponent⟩ := read
    rw [← whole]
    exact .whole (digits_takeWhile (someDigits.resolve_right (not_not_intro rfl))) exponent

theorem IsExponent.splits {exponent digits : List Char} (isExponent : IsExponent exponent)
    (each : ∀ c ∈ digits, c.isDigit = true) :
    (digits ++ exponent).takeWhile Char.isDigit = digits ∧
      (digits ++ exponent).dropWhile Char.isDigit = exponent :=
  takeWhile_digits each fun c isHead => (isExponent.head c isHead).1

private theorem isSome_read?_pointed {digits fraction exponent : List Char}
    (each : ∀ c ∈ digits, c.isDigit = true) (eachBehind : ∀ c ∈ fraction, c.isDigit = true)
    (someDigits : digits ≠ [] ∨ fraction ≠ []) (isExponent : IsExponent exponent) :
    (Literal.read? (digits ++ '.' :: (fraction ++ exponent))).isSome = true := by
  have stops : ∀ c ∈ ('.' :: (fraction ++ exponent)).head?, c.isDigit = false := by
    rintro c ⟨⟩
    rfl
  obtain ⟨taken, left⟩ := takeWhile_digits each stops
  obtain ⟨takenBehind, leftBehind⟩ := isExponent.splits eachBehind
  rw [Literal.read?_of_point left, Literal.isSome_close?_iff, taken, takenBehind, leftBehind]
  exact ⟨someDigits, isExponent⟩

theorem isSome_read?_iff {cs : List Char} : (Literal.read? cs).isSome = true ↔ IsDecimal cs := by
  refine ⟨isDecimal_of_read?, fun decimal => ?_⟩
  cases decimal with
  | @whole digits exponent isDigits isExponent =>
    obtain ⟨taken, left⟩ := isExponent.splits (digits_iff.mp isDigits).2
    have noPoint (more : List Char) : exponent ≠ '.' :: more := by
      rintro rfl
      exact (isExponent.head '.' rfl).2 rfl
    rw [Literal.read?_of_no_point (left.symm ▸ noPoint), Literal.isSome_close?_iff, taken, left]
    exact ⟨.inl isDigits.1, isExponent⟩
  | pointed isDigits isFraction isExponent =>
    refine isSome_read?_pointed (digits_iff.mp isDigits).2 ?_ (.inl isDigits.1) isExponent
    obtain rfl | isFraction := isFraction
    · exact List.forall_mem_nil _
    · exact (digits_iff.mp isFraction).2
  | fraction isDigits isExponent =>
    exact isSome_read?_pointed (List.forall_mem_nil _) (digits_iff.mp isDigits).2 (.inr isDigits.1)
      isExponent

/-- A decimal numeral starts with a digit or a point. -/
theorem IsDecimal.head {cs : List Char} (decimal : IsDecimal cs) :
    ∃ c rest, cs = c :: rest ∧ (c.isDigit = true ∨ c = '.') := by
  have ofDigits {digits : List Char} (isDigits : Digits digits) (rest : List Char) :
      ∃ c more, digits ++ rest = c :: more ∧ (c.isDigit = true ∨ c = '.') := by
    obtain ⟨nonempty, each⟩ := digits_iff.mp isDigits
    obtain ⟨c, more, rfl⟩ := List.exists_cons_of_ne_nil nonempty
    exact ⟨c, more ++ rest, rfl, .inl (each c List.mem_cons_self)⟩
  cases decimal with
  | whole isDigits _ => exact ofDigits isDigits _
  | pointed isDigits _ _ => exact ofDigits isDigits _
  | fraction _ _ => exact ⟨_, _, rfl, .inr rfl⟩

end Decimals

end Decimal

namespace Scalar

open Decimal

private theorem isSome_radixDigit?_iff {radix : Nat} {c : Char} :
    (radixDigit? radix c).isSome = true ↔ (48 ≤ c.toNat ∧ c.toNat ≤ 57 ∧ c.toNat - 48 < radix) ∨
    (97 ≤ c.toNat ∧ c.toNat ≤ 102 ∧ c.toNat - 97 + 10 < radix) ∨
    (65 ≤ c.toNat ∧ c.toNat ≤ 70 ∧ c.toNat - 65 + 10 < radix) := by
  have between (first last : Char) : (first ≤ c && c ≤ last) = true ↔
      first.toNat ≤ c.toNat ∧ c.toNat ≤ last.toNat := by
    rw [Bool.and_eq_true, decide_eq_true_eq, decide_eq_true_eq]
    rfl
  have codes : '0'.toNat = 48 ∧ 'a'.toNat = 97 ∧ 'f'.toNat = 102 ∧ 'A'.toNat = 65 ∧ 'F'.toNat = 70 := by
    decide
  unfold radixDigit?
  dsimp only
  simp only [between, Text.isDigit_iff]
  rw [Option.isSome_filter]
  split
  · simp only [Option.any_some, decide_eq_true_eq]
    omega
  split
  · simp only [Option.any_some, decide_eq_true_eq]
    omega
  split
  · simp only [Option.any_some, decide_eq_true_eq]
    omega
  · simp only [Option.any_none, Bool.false_eq_true, false_iff]
    omega

private theorem isSome_radix?_iff {mark : Char} :
    (radix? mark).isSome = true ↔ mark ∈ radixMarks.map (·.1) := by
  rw [radix?.eq_def]
  split <;> simp_all [radixMarks]

/-- The digits that belong to a mark are those its radix has values for. -/
theorem isSome_radixDigit?_iff_mem {mark : Char} {alphabet : String} {radix : Nat}
    (isMark : (mark, alphabet) ∈ radixMarks) (announced : radix? mark = some radix) (c : Char) :
    (radixDigit? radix c).isSome = true ↔ c ∈ alphabet.toList := by
  simp only [radixMarks, List.mem_cons, Prod.mk.injEq, List.not_mem_nil, or_false] at isMark
  obtain ⟨rfl, rfl⟩ | ⟨rfl, rfl⟩ | ⟨rfl, rfl⟩ | ⟨rfl, rfl⟩ | ⟨rfl, rfl⟩ | ⟨rfl, rfl⟩ := isMark
  all_goals
    cases announced
    simp only [isSome_radixDigit?_iff, String.reduceToList, List.mem_cons, ↓Char.isValue,
      ← Char.toNat_inj, Char.reduceToNat, List.not_mem_nil, or_false]
    omega

private theorem isSome_mapM_iff {α β : Type} {f : α → Option β} {as : List α} :
    (as.mapM f).isSome = true ↔ ∀ a ∈ as, (f a).isSome = true := by
  induction as with
  | nil => simp
  | cons a rest ih =>
    rw [List.mapM_cons, List.forall_mem_cons, ← ih]
    cases f a <;> cases rest.mapM f <;> simp

theorem isSome_radixNumber?_iff {radix : Nat} {cs : List Char} :
    (radixNumber? radix cs).isSome = true ↔
      cs ≠ [] ∧ ∀ c ∈ cs, (radixDigit? radix c).isSome = true := by
  unfold radixNumber?
  split
  · next blank => simp [List.isEmpty_iff.mp blank]
  · next nonempty =>
    have nonempty : cs ≠ [] := by simpa using nonempty
    rw [Option.isSome_map, isSome_mapM_iff, and_iff_right nonempty]

section Numerals

/-- What may stand behind a sign. -/
def IsUnsigned (cs : List Char) : Prop := cs = "Infinity".toList ∨ IsDecimal cs

theorem isSome_unsignedNumber?_iff {negative : Bool} {cs : List Char} :
    (unsignedNumber? negative cs).isSome = true ↔ IsUnsigned cs := by
  unfold unsignedNumber? IsUnsigned
  split
  · next same => exact iff_of_true rfl (.inl (beq_iff_eq.mp same))
  · next other =>
    rw [Option.isSome_map, isSome_read?_iff, or_iff_right (mt beq_iff_eq.mpr other)]

private theorem not_isUnsigned_of_sign {sign : Char} (isSign : sign = '+' ∨ sign = '-')
    (rest : List Char) : ¬ IsUnsigned (sign :: rest) := by
  rintro (infinity | decimal)
  · obtain rfl | rfl := isSign <;> simp at infinity
  · obtain ⟨c, more, same, starts⟩ := decimal.head
    cases same
    obtain rfl | rfl := isSign <;> simp at starts

private theorem isNumeral_iff {cs : List Char} : IsNumeral cs ↔
    cs = [] ∨ (∃ mark alphabet digits, (mark, alphabet) ∈ radixMarks ∧ Text.Run alphabet digits ∧
      cs = '0' :: mark :: digits) ∨ IsUnsigned (unsigned cs) := by
  rw [← exists_sign_iff (not_isUnsigned_of_sign (.inl rfl)) (not_isUnsigned_of_sign (.inr rfl))]
  constructor
  · intro numeral
    cases numeral with
    | blank => exact .inl rfl
    | radix isMark isDigits => exact .inr (.inl ⟨_, _, _, isMark, isDigits, rfl⟩)
    | infinity isSign => exact .inr (.inr ⟨_, _, isSign, .inl rfl, rfl⟩)
    | decimal isSign isDecimal => exact .inr (.inr ⟨_, _, isSign, .inr isDecimal, rfl⟩)
  · rintro (rfl | ⟨mark, alphabet, digits, isMark, isDigits, rfl⟩ | ⟨sign, body, isSign, isBody, rfl⟩)
    · exact .blank
    · exact .radix isMark isDigits
    · obtain rfl | isDecimal := isBody
      · exact .infinity isSign
      · exact .decimal isSign isDecimal

/-- A mark of a radix after a zero is no part of a decimal numeral. -/
theorem not_isUnsigned_of_mark {mark : Char} (isMark : mark ∈ radixMarks.map (·.1))
    (digits : List Char) : ¬ IsUnsigned ('0' :: mark :: digits) := by
  have other : mark.isDigit = false ∧ mark ≠ '.' ∧ mark ≠ 'e' ∧ mark ≠ 'E' := by
    simp only [radixMarks, List.map_cons, List.map_nil, List.mem_cons, List.not_mem_nil, or_false] at isMark
    obtain rfl | rfl | rfl | rfl | rfl | rfl := isMark <;> decide
  obtain ⟨noDigit, noPoint, noLower, noUpper⟩ := other
  have left : ('0' :: mark :: digits).dropWhile Char.isDigit = mark :: digits := by
    rw [List.dropWhile_cons_of_pos rfl, List.dropWhile_cons_of_neg (by simp [noDigit])]
  rintro (infinity | decimal)
  · simp at infinity
  · have stops (more : List Char) : ('0' :: mark :: digits).dropWhile Char.isDigit ≠ '.' :: more := by
      rw [left]
      exact fun same => noPoint (List.cons.inj same).1
    rw [← isSome_read?_iff, Literal.read?_of_no_point stops, Literal.isSome_close?_iff, left,
      isExponent_cons_iff] at decimal
    exact decimal.2.1.elim noLower noUpper

private theorem isNumeral_radix_iff {mark : Char} {radix : Nat}
    (announced : radix? mark = some radix) {digits : List Char} :
    IsNumeral ('0' :: mark :: digits) ↔
      digits ≠ [] ∧ ∀ c ∈ digits, (radixDigit? radix c).isSome = true := by
  have isMark : mark ∈ radixMarks.map (·.1) := by
    rw [← isSome_radix?_iff, announced]
    rfl
  rw [isNumeral_iff]
  constructor
  · rintro (blank | ⟨_, alphabet, _, known, ⟨nonempty, each⟩, same⟩ | isUnsigned)
    · contradiction
    · cases same
      exact ⟨nonempty, fun c member => (isSome_radixDigit?_iff_mem known announced c).mpr (each c member)⟩
    · exact absurd isUnsigned (not_isUnsigned_of_mark isMark digits)
  · rintro ⟨nonempty, each⟩
    obtain ⟨⟨_, alphabet⟩, known, rfl⟩ := List.mem_map.mp isMark
    refine .inr (.inl ⟨_, alphabet, digits, known, ⟨nonempty, fun c member => ?_⟩, rfl⟩)
    exact (isSome_radixDigit?_iff_mem known announced c).mp (each c member)

private theorem isNumeral_iff_isUnsigned {cs : List Char} (nonempty : cs ≠ [])
    (noRadix : ∀ mark digits, cs = '0' :: mark :: digits → radix? mark = none) :
    IsNumeral cs ↔ IsUnsigned (unsigned cs) := by
  rw [isNumeral_iff, or_iff_right nonempty]
  refine or_iff_right ?_
  rintro ⟨mark, alphabet, digits, known, -, same⟩
  have announces := isSome_radix?_iff.mpr (List.mem_map_of_mem known)
  rw [noRadix mark digits same] at announces
  contradiction

theorem isSome_numberOfText?_iff {cs : List Char} :
    (numberOfText? cs).isSome = true ↔ IsNumeral (Text.trim cs) := by
  unfold numberOfText?
  generalize Text.trim cs = core
  split
  · exact iff_of_true rfl .blank
  · split
    · next announced => rw [isSome_radixNumber?_iff, isNumeral_radix_iff announced]
    · next noRadix =>
      rw [isSome_unsignedNumber?_iff, isNumeral_iff_isUnsigned (List.cons_ne_nil _ _)]
      · rfl
      · rintro _ _ ⟨⟩
        exact noRadix
  · rw [isSome_unsignedNumber?_iff, isNumeral_iff_isUnsigned (List.cons_ne_nil _ _)]
    · rfl
    · rintro _ _ ⟨⟩
  · rw [isSome_unsignedNumber?_iff, isNumeral_iff_isUnsigned (List.cons_ne_nil _ _)]
    · rfl
    · rintro _ _ ⟨⟩
  · next nonempty noRadix noMinus noPlus =>
    rw [isSome_unsignedNumber?_iff, isNumeral_iff_isUnsigned nonempty, unsigned_of_no_sign noMinus noPlus]
    intro mark digits same
    exact absurd same (noRadix mark digits)

end Numerals

end Scalar

namespace Text

private theorem not_isBlank_of_dropWhile {cs : List Char} {c : Char}
    (isHead : c ∈ (cs.dropWhile isBlank).head?) : isBlank c = false := by
  have head := List.head?_dropWhile_not isBlank cs
  rw [Option.mem_def.mp isHead] at head
  exact head

private theorem trims_trim (cs : List Char) : Trims cs (trim cs) := by
  have left : cs.takeWhile isBlank ++ skipBlanks cs = cs := List.takeWhile_append_dropWhile
  have right : trim cs ++ ((skipBlanks cs).reverse.takeWhile isBlank).reverse = skipBlanks cs := by
    rw [trim, trimRight, ← List.reverse_append, List.takeWhile_append_dropWhile, List.reverse_reverse]
  refine ⟨⟨cs.takeWhile isBlank, ((skipBlanks cs).reverse.takeWhile isBlank).reverse, ?_,
    fun c member => ?_⟩, fun c isFirst => ?_, fun c isLast => ?_⟩
  · rw [List.append_assoc, right, left]
  · rw [List.mem_append, List.mem_reverse] at member
    exact member.elim List.mem_takeWhile_imp List.mem_takeWhile_imp
  · -- The first character left is also the first behind the blanks in front.
    obtain ⟨rest, isCore⟩ := List.head?_eq_some_iff.mp isFirst
    rw [isCore, List.cons_append] at right
    have isFirstBehind : c ∈ (cs.dropWhile isBlank).head? := by
      rw [← skipBlanks, ← right]
      rfl
    exact not_isBlank_of_dropWhile isFirstBehind
  · rw [trim, trimRight, List.getLast?_reverse] at isLast
    exact not_isBlank_of_dropWhile isLast

end Text

namespace Scalar

/-- A text that is not empty reads as a number exactly if it is a numeral between blanks. -/
theorem isSome_number_iff (s : String) :
    (if s.isEmpty then none else numberOfText? s.toList).isSome = true ↔
      s ≠ "" ∧ IsNumeral (Text.trim s.toList) := by
  rw [← isSome_numberOfText?_iff]
  split
  · next empty => simp [String.isEmpty_iff.mp empty]
  · next nonempty =>
    have nonempty : s ≠ "" := mt String.isEmpty_iff.mpr nonempty
    rw [and_iff_right nonempty]

private theorem ofText_of_some {s : String} {x : Float}
    (read : (if s.isEmpty then none else numberOfText? s.toList) = some x) : ofText s = .number x := by
  rw [ofText.eq_def, read]

private theorem ofText_of_none {s : String}
    (noNumber : (if s.isEmpty then none else numberOfText? s.toList) = none) : ofText s = ofWord s := by
  rw [ofText.eq_def, noNumber]
  dsimp only
  split <;> simp_all [ofWord]

private theorem ofWord_ne_number (s : String) (x : Float) : ofWord s ≠ .number x := by
  unfold ofWord
  split_ifs <;> simp

/-- The value of a text is a number exactly if the text is not empty and, without the blanks around it, one
of the numerals. Otherwise, and only then, it is what the whole text stands for as a word. -/
theorem ofText_follows_grammar (s : String) :
    Text.Trims s.toList (Text.trim s.toList) ∧
    ((∃ x, ofText s = .number x) ↔ s ≠ "" ∧ IsNumeral (Text.trim s.toList)) ∧
    (ofText s = ofWord s ↔ ¬ (s ≠ "" ∧ IsNumeral (Text.trim s.toList))) := by
  refine ⟨Text.trims_trim _, ?_⟩
  rw [← isSome_number_iff]
  cases read : if s.isEmpty then none else numberOfText? s.toList with
  | some x =>
    have isNumber := ofText_of_some read
    simp [isNumber, (ofWord_ne_number s x).symm]
  | none =>
    have isWord := ofText_of_none read
    simp [isWord, ofWord_ne_number]

-- No sign stands before a mark of a radix, and none at the end of an exponent.
example : ofText "-0x10" = .string "-0x10" := by rfl

example : ofText "1e+" = .string "1e+" := by rfl

end Scalar
end Arbor
