/-! # Sets of characters, and blanks

A set of characters is written as a list of closed ranges of code points, the form in which the
standard tables of character properties come. The first of them are the characters that separate
words: the Unicode property `White_Space`. Trimming and splitting into words are defined from the
one test. -/

namespace Arbor.Text

/-- A set of characters: the union of closed code-point ranges. -/
abbrev Ranges := List (Nat × Nat)

def Ranges.contains (ranges : Ranges) (c : Char) : Bool :=
  ranges.any fun range => range.1 ≤ c.toNat && c.toNat ≤ range.2

theorem Ranges.contains_eq_true_iff {ranges : Ranges} {c : Char} :
    ranges.contains c = true ↔ ∃ range ∈ ranges, range.1 ≤ c.toNat ∧ c.toNat ≤ range.2 := by
  simp [Ranges.contains, List.any_eq_true]

def blankRanges : Ranges :=
  [(0x9, 0xd), (0x20, 0x20), (0x85, 0x85), (0xa0, 0xa0), (0x1680, 0x1680), (0x2000, 0x200a),
   (0x2028, 0x2029), (0x202f, 0x202f), (0x205f, 0x205f), (0x3000, 0x3000)]

/-- A blank: space, tab, line end, or one of the blanks of other scripts. -/
def isBlank (c : Char) : Bool := blankRanges.contains c

def skipBlanks (cs : List Char) : List Char := cs.dropWhile isBlank

def trimRight (cs : List Char) : List Char := (cs.reverse.dropWhile isBlank).reverse

def trim (cs : List Char) : List Char := trimRight (skipBlanks cs)

/-- The pieces between single blanks, empty ones included. -/
def splitAtBlanks : List Char → List (List Char)
  | [] => [[]]
  | c :: rest =>
    if isBlank c then [] :: splitAtBlanks rest
    else match splitAtBlanks rest with
      | [] => [[c]]
      | word :: words => (c :: word) :: words

/-- The maximal runs of characters that are not blank. -/
def words (cs : List Char) : List (List Char) := (splitAtBlanks cs).filter (· ≠ [])

theorem length_skipBlanks_le (cs : List Char) : (skipBlanks cs).length ≤ cs.length :=
  (List.dropWhile_suffix isBlank).length_le

end Arbor.Text
