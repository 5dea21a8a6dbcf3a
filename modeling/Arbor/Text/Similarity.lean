/-! # Similarity of names

Jaro-Winkler similarity, used to suggest a known name for one that is not known. Two characters
match when they are equal and not too far apart; the score weighs how many match, how many of
those are out of order, and rewards a common start. -/

namespace Arbor.Text

/-- The first unused place among those in reach that holds the character, marked as used.
`place` numbers the head of the list; places from `low` to `high` are in reach. -/
def takeMatch (c : Char) (low high : Nat) : Nat → List (Char × Bool) → Option (List (Char × Bool))
  | _, [] => none
  | place, (d, used) :: rest =>
    if low ≤ place && place ≤ high && !used && c == d then some ((d, true) :: rest)
    else (takeMatch c low high (place + 1) rest).map ((d, used) :: ·)

/-- The characters of the first name that find a match, in order, and the marked second name. -/
def takeMatches (reach : Nat) : Nat → List Char → List (Char × Bool) →
    List Char × List (Char × Bool)
  | _, [], marked => ([], marked)
  | place, c :: rest, marked =>
    match takeMatch c (place - reach) (place + reach) 0 marked with
    | some marked =>
      let (matched, marked) := takeMatches reach (place + 1) rest marked
      (c :: matched, marked)
    | none => takeMatches reach (place + 1) rest marked

def countDifferences (a b : List Char) : Nat :=
  ((a.zip b).filter fun pair => pair.1 != pair.2).length

/-- Jaro similarity: 1 for equal names, 0 for names without matching characters. -/
def jaro (a b : List Char) : Float :=
  if a.isEmpty && b.isEmpty then 1.0
  else if a.isEmpty || b.isEmpty then 0.0
  else
    let reach := max a.length b.length / 2 - 1
    let (matched, marked) := takeMatches reach 0 a (b.map (·, false))
    let counterpart := (marked.filter (·.2)).map (·.1)
    if matched.isEmpty then 0.0
    else
      let m := matched.length.toFloat
      let transposed := (countDifferences matched counterpart / 2).toFloat
      (m / a.length.toFloat + m / b.length.toFloat + (m - transposed) / m) / 3.0

def commonStart : List Char → List Char → Nat
  | a :: as, b :: bs => if a == b then commonStart as bs + 1 else 0
  | _, _ => 0

/-- Jaro similarity, raised for a common start of up to four characters when it is above 0.7. -/
def jaroWinkler (a b : String) : Float :=
  let base := jaro a.toList b.toList
  if base > 0.7 then
    base + 0.1 * (min 4 (commonStart a.toList b.toList)).toFloat * (1.0 - base)
  else base

/-- The most similar of the known names, if one scores at least 0.85; the last of equals wins. -/
def closest? (name : String) (known : List String) : Option String :=
  let better (best : Option (Float × String)) (candidate : String) : Option (Float × String) :=
    let score := jaroWinkler name candidate
    if score < 0.85 then best
    else match best with
      | some (top, _) => if score < top then best else some (score, candidate)
      | none => some (score, candidate)
  (known.foldl better none).map (·.2)

end Arbor.Text
