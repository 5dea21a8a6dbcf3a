import Arbor.Proofs.Reading
import Arbor.Text.Quoted

/-! # Quoted text read back

The reader of quoted text knows three of the short escapes and takes every other escaped character as it
stands. So quoted text is always read to its closing quote, but a character that was written by its code
point comes back as several, and the null character as a zero. The text comes back as it was exactly if
no character of it was written in one of these two ways. -/

namespace Arbor

namespace Text

/-- The character is quoted as itself, or by an escape that readers undo. -/
def PlainlyQuoted (c : Char) : Prop :=
  quoteChar c = [c] ∨
    quoteChar c ∈ [['\\', 't'], ['\\', 'r'], ['\\', 'n'], ['\\', '"'], ['\\', '\\']]

instance (c : Char) : Decidable (PlainlyQuoted c) := inferInstanceAs (Decidable (_ ∨ _))

def QuotesPlainly (text : String) : Prop := ∀ c ∈ text.toList, PlainlyQuoted c

instance (text : String) : Decidable (QuotesPlainly text) :=
  List.decidableBAll PlainlyQuoted text.toList

private theorem quoteChar_of_short {c short : Char} (escapes : shortEscape? c = some short) :
    quoteChar c = ['\\', short] := by
  rw [quoteChar, escapes]

private theorem quoteChar_of_printable {c : Char} (noShort : shortEscape? c = none)
    (shows : isPrintable c = true) : quoteChar c = [c] := by
  rw [quoteChar, noShort]
  exact if_pos shows

private theorem quoteChar_of_unprintable {c : Char} (noShort : shortEscape? c = none)
    (hidden : isPrintable c = false) :
    quoteChar c = '\\' :: 'u' :: '\x7b' :: (Nat.toDigits 16 c.toNat ++ ['\x7d']) := by
  rw [quoteChar, noShort]
  simp [hidden]

/-- A character without a short escape is neither a quote nor a backslash. -/
theorem ne_of_shortEscape?_eq_none {c : Char} (noShort : shortEscape? c = none) :
    c ≠ '"' ∧ c ≠ '\\' := by
  refine ⟨?_, ?_⟩
  · rintro rfl
    exact absurd noShort (by decide)
  · rintro rfl
    exact absurd noShort (by decide)

end Text

namespace Selector.Parser

open Text

section Characters

/-- What the reader makes of one quoted character. -/
def reread (c : Char) : List Char :=
  match shortEscape? c with
  | some short => [unescape short]
  | none =>
    if isPrintable c then [c] else 'u' :: '\x7b' :: (Nat.toDigits 16 c.toNat ++ ['\x7d'])

private theorem reread_ne_nil (c : Char) : reread c ≠ [] := by
  rw [reread]
  split
  · simp
  · split <;> simp

private theorem digitChar_plain :
    ∀ digit < 16, Nat.digitChar digit ≠ '"' ∧ Nat.digitChar digit ≠ '\\' := by
  decide

private theorem digits_plain {number : Nat} {c : Char} (isDigit : c ∈ Nat.toDigits 16 number) :
    c ≠ '"' ∧ c ≠ '\\' := by
  induction number using Nat.strongRecOn with
  | ind number ih =>
    rw [Nat.toDigits_eq_if (by decide)] at isDigit
    split at isDigit
    · next small =>
      rw [List.mem_singleton.mp isDigit]
      exact digitChar_plain number small
    · next large =>
      obtain isEarlier | isLast := List.mem_append.mp isDigit
      · exact ih (number / 16) (by omega) isEarlier
      · rw [List.mem_singleton.mp isLast]
        exact digitChar_plain (number % 16) (by omega)

private theorem quoted_escape (c : Char) (rest : List Char) : quoted '"' ('\\' :: c :: rest) =
    (quoted '"' rest).map fun (value, after) => (unescape c :: value, after) := by
  rw [quoted]
  cases quoted '"' rest <;> rfl

private theorem quoted_plain {cs : List Char} (plain : ∀ c ∈ cs, c ≠ '"' ∧ c ≠ '\\')
    (rest : List Char) :
    quoted '"' (cs ++ rest) = (quoted '"' rest).map fun (value, after) => (cs ++ value, after) := by
  induction cs with
  | nil => cases read : quoted '"' rest <;> simp [read, Except.map]
  | cons c cs ih =>
    obtain ⟨noQuote, noEscape⟩ := plain c List.mem_cons_self
    rw [List.cons_append, quoted.eq_def]
    split
    · contradiction
    · next same => exact absurd (List.cons.inj same).1 noEscape
    · next same =>
      obtain ⟨rfl, rfl⟩ := List.cons.inj same
      rw [if_neg (by simpa using noQuote), ih fun c isMember => plain c (List.mem_cons_of_mem _ isMember)]
      cases quoted '"' rest <;> rfl

private theorem quoted_quoteChar (c : Char) (rest : List Char) : quoted '"' (quoteChar c ++ rest) =
    (quoted '"' rest).map fun (value, after) => (reread c ++ value, after) := by
  cases escapes : shortEscape? c with
  | some short =>
    rw [quoteChar_of_short escapes, reread, escapes]
    exact quoted_escape short rest
  | none =>
    cases shows : isPrintable c with
    | true =>
      rw [quoteChar_of_printable escapes shows, reread, escapes]
      simp only [shows, if_true]
      exact quoted_plain (by simpa using ne_of_shortEscape?_eq_none escapes) rest
    | false =>
      -- After the escaped letter, the braces and the digits are read as plain text.
      have plain : ∀ d ∈ '\x7b' :: (Nat.toDigits 16 c.toNat ++ ['\x7d']), d ≠ '"' ∧ d ≠ '\\' := by
        intro d isMember
        rw [List.mem_cons, List.mem_append, List.mem_singleton] at isMember
        obtain rfl | isDigit | rfl := isMember
        · decide
        · exact digits_plain isDigit
        · decide
      rw [quoteChar_of_unprintable escapes shows, reread, escapes, List.cons_append,
        List.cons_append, quoted_escape, quoted_plain plain]
      cases quoted '"' rest <;> simp [shows, Except.map, unescape]

end Characters

/-- Quoted text is read to its closing quote, each character on its own. -/
theorem quoted_quoteChars (cs rest : List Char) :
    quoted '"' (cs.flatMap quoteChar ++ '"' :: rest) = .ok (cs.flatMap reread, rest) := by
  induction cs with
  | nil => rfl
  | cons c cs ih =>
    rw [List.flatMap_cons, List.append_assoc, quoted_quoteChar, ih, List.flatMap_cons]
    rfl

theorem length_le_flatMap_reread (cs : List Char) : cs.length ≤ (cs.flatMap reread).length := by
  induction cs with
  | nil => simp
  | cons c cs ih =>
    have nonempty := List.length_pos_iff.mpr (reread_ne_nil c)
    simp only [List.flatMap_cons, List.length_append, List.length_cons]
    omega

/-- No character comes back as more than one only to be made up for by a later one. -/
theorem flatMap_reread_eq_iff {cs : List Char} : cs.flatMap reread = cs ↔ ∀ c ∈ cs, reread c = [c] := by
  induction cs with
  | nil => simp
  | cons c cs ih =>
    rw [List.flatMap_cons, List.forall_mem_cons, ← ih]
    constructor
    · intro same
      obtain ⟨first, more, isCons⟩ := List.exists_cons_of_ne_nil (reread_ne_nil c)
      rw [isCons, List.cons_append, List.cons.injEq] at same
      have short : more = [] := by
        have bound := length_le_flatMap_reread cs
        have total := congrArg List.length same.2
        rw [List.length_append] at total
        exact List.length_eq_zero_iff.mp (by omega)
      rw [short, List.nil_append] at same
      exact ⟨by rw [isCons, short, same.1], same.2⟩
    · rintro ⟨first, others⟩
      rw [first, others, List.singleton_append]

private theorem reread_eq_iff (c : Char) : reread c = [c] ↔ PlainlyQuoted c := by
  cases escapes : shortEscape? c with
  | some short =>
    rw [shortEscape?.eq_def] at escapes
    -- Each short escape is tried: only the one of the null character is not undone.
    split at escapes <;> first | contradiction | decide
  | none =>
    cases shows : isPrintable c with
    | true =>
      have verbatim := quoteChar_of_printable escapes shows
      exact iff_of_true (by simp [reread, escapes, shows]) (.inl verbatim)
    | false =>
      refine iff_of_false (by simp [reread, escapes, shows]) ?_
      rw [PlainlyQuoted, quoteChar_of_unprintable escapes shows]
      simp

/-- Quoted text comes back as it was exactly if all of it is plainly quoted. -/
theorem flatMap_reread_eq_iff_plainlyQuoted {cs : List Char} :
    cs.flatMap reread = cs ↔ ∀ c ∈ cs, PlainlyQuoted c := by
  simp only [flatMap_reread_eq_iff, reread_eq_iff]

end Selector.Parser
end Arbor
