import Arbor.Proofs.Rereading

/-! # Canonical texts read back as the selectors they were written for

The canonical text of a selector that was read is read back chain by chain and part by part. It gives the
selector back exactly if the selector is clean: no operator runs together with the name before it, and no
quoted text has a character that is written by its code point or as the escaped zero. -/

namespace Arbor

open Selector Selector.Parser Text

def Chain.reread (chain : Chain) : Except Problem Chain := chain.mapM Part.reread

/-- What a reader makes of the canonical text of a selector. -/
def Selector.reread (selector : Selector) : Except Problem Selector :=
  (selector.chains.mapM Chain.reread).map Selector.mk

namespace Selector.Parser

/-- A character with which the canonical text of a part starts, after its combinator. -/
def StartsBody (c : Char) : Prop := isNameChar c = true ∨ c = '*' ∨ c = '#'

instance (c : Char) : Decidable (StartsBody c) := inferInstanceAs (Decidable (_ ∨ _ ∨ _))

theorem StartsBody.solid {c : Char} (starts : StartsBody c) : isBlank c = false := by
  obtain isName | rfl | rfl := starts
  · exact isBlank_of_isNameChar isName
  · decide
  · decide

/-- No part starts with a combinator or a comma. -/
theorem StartsBody.apart {c : Char} (starts : StartsBody c) : c ∉ [',', '~', '=', '>', '<', '!'] := by
  intro isSymbol
  simp only [List.mem_cons, List.not_mem_nil, or_false] at isSymbol
  obtain rfl | rfl | rfl | rfl | rfl | rfl := isSymbol <;> exact absurd starts (by decide)

private theorem body_eq_cons {part : Part} (wellRead : part.WellRead) :
    ∃ c rest, part.body = c :: rest ∧ StartsBody c := by
  rw [Part.body, Part.tagChars]
  cases isTag : part.tag with
  | some named =>
    obtain ⟨nonempty, isName⟩ := wellRead.tag named isTag
    obtain ⟨c, cs, isCons⟩ := List.exists_cons_of_ne_nil nonempty
    simp only [isCons, List.cons_append]
    rw [isCons] at isName
    exact ⟨c, _, rfl, .inl (isName_cons_iff.mp isName).1⟩
  | none =>
    cases isId : part.id with
    | none => exact ⟨'*', _, rfl, .inr (.inl rfl)⟩
    | some id =>
      rw [Part.tests, isId]
      exact ⟨'#', _, rfl, .inr (.inr rfl)⟩

private theorem skipBlanks_body {part : Part} (wellRead : part.WellRead) (rest : List Char) :
    skipBlanks (part.body ++ rest) = part.body ++ rest := by
  obtain ⟨c, after, isCons, starts⟩ := body_eq_cons wellRead
  rw [isCons]
  exact skipBlanks_of_not_blank _ starts.solid

private theorem combinator?_body {part : Part} (wellRead : part.WellRead) (rest : List Char) :
    combinator? (part.body ++ rest) = none := by
  obtain ⟨c, after, isCons, starts⟩ := body_eq_cons wellRead
  have noSymbol := starts.apart
  simp only [List.mem_cons, List.not_mem_nil, or_false, not_or] at noSymbol
  obtain ⟨_, noTilde, noEquals, noGreater, noLess, noMark⟩ := noSymbol
  rw [isCons]
  exact combinator?_cons_eq_none_iff.mpr
    ⟨by simp [noGreater, noLess, noMark], fun isSymbol => by simp [noTilde, noEquals] at isSymbol⟩

private theorem skipBlanks_blank (rest : List Char) :
    skipBlanks (' ' :: rest) = skipBlanks rest := rfl

/-- A part other than by descent is written after its combinator and a blank. -/
theorem combinator?_chars {part : Part} (given : part.combinator ≠ .descendant) (rest : List Char) :
    skipBlanks (part.chars ++ rest) = part.chars ++ rest ∧
      combinator? (part.chars ++ rest) = some (part.combinator, ' ' :: (part.body ++ rest)) := by
  rw [Part.chars_eq_body, Part.combinatorChars, if_neg given, List.append_assoc]
  cases isCombinator : part.combinator with
  | descendant => contradiction
  | _ => exact ⟨rfl, rfl⟩

private theorem chars_of_descendant {part : Part} (plain : part.combinator = .descendant) :
    part.chars = part.body := by
  rw [Part.chars_eq_body, Part.combinatorChars, if_pos plain, List.nil_append]

private theorem skipBlanks_chars {part : Part} (wellRead : part.WellRead) (rest : List Char) :
    skipBlanks (part.chars ++ rest) = part.chars ++ rest := by
  by_cases plain : part.combinator = .descendant
  · rw [chars_of_descendant plain]
    exact skipBlanks_body wellRead rest
  · exact (combinator?_chars plain rest).1

section Chains

private theorem intercalate_cons {α : Type} (separator first : List α) (others : List (List α)) :
    separator.intercalate (first :: others) = first ++ others.flatMap (separator ++ ·) := by
  induction others generalizing first with
  | nil => simp
  | cons second others ih => simp only [List.intercalate_cons_cons, ih, List.flatMap_cons, List.append_assoc]

/-- No chain goes on with the text: it is at its end or at a comma. -/
def EndsChain (cs : List Char) : Prop := ∀ c, cs.head? = some c → c = ','

theorem parts_of_error {combinator : Combinator} {cs : List Char} {problem : Problem}
    (fails : part combinator (skipBlanks cs) = .error problem) : parts combinator cs = .error problem := by
  rw [parts]
  split <;> simp_all

/-- The parts after the first one, each after a blank. -/
def followingChars (parts : List Part) : List Char := parts.flatMap fun part => ' ' :: part.chars

private theorem endsPart_followingChars (parts : List Part) {rest : List Char}
    (ends : EndsChain rest) : EndsPart (followingChars parts ++ rest) := by
  cases parts with
  | nil => exact fun c isHead => .inr (ends c isHead)
  | cons part parts => exact fun c isHead => .inl (Option.some.inj isHead).symm

/-- After a part, the one that follows it is read with the combinator it was written with. -/
theorem parts_of_following {combinator : Combinator} {cs : List Char} {read : Part} {second : Part}
    (secondRead : second.WellRead) {rest : List Char}
    (readFirst : part combinator (skipBlanks cs) = .ok (read, ' ' :: (second.chars ++ rest))) :
    ∃ remaining, skipBlanks remaining = second.body ++ rest ∧ parts combinator cs =
      (parts second.combinator remaining).map fun (chain, ending) => (read :: chain, ending) := by
  by_cases plain : second.combinator = .descendant
  · obtain ⟨c, body, isCons, starts⟩ := body_eq_cons secondRead
    have skips := skipBlanks_body secondRead rest
    have noCombinator := combinator?_body secondRead rest
    rw [chars_of_descendant plain] at readFirst
    rw [isCons, List.cons_append] at readFirst skips noCombinator
    have noComma : c ≠ ',' := by
      rintro rfl
      exact starts.apart List.mem_cons_self
    refine ⟨second.body ++ rest, skipBlanks_body secondRead rest, ?_⟩
    rw [plain, isCons]
    exact parts_of_blank readFirst skips noComma noCombinator (Nat.lt_succ_self _)
  · obtain ⟨skips, found⟩ := combinator?_chars plain rest
    refine ⟨' ' :: (second.body ++ rest), skipBlanks_body secondRead rest, ?_⟩
    exact parts_of_combinator readFirst (by rw [skipBlanks_blank, skips, found])

/-- Parts are read back one by one, each as if it stood alone. -/
theorem parts_chars {first : Part} {others : List Part} (wellRead : first.WellRead)
    (othersRead : ∀ part ∈ others, part.WellRead) {rest : List Char} (ends : EndsChain rest)
    {cs : List Char} (starts : skipBlanks cs = first.body ++ (followingChars others ++ rest)) :
    parts first.combinator cs = (Chain.reread (first :: others)).map fun chain => (chain, rest) := by
  induction others generalizing first cs with
  | nil =>
    have readFirst := part_body wellRead (endsPart_followingChars [] ends)
    rw [← starts] at readFirst
    rw [Chain.reread, List.mapM_cons]
    cases reads : first.reread with
    | error problem =>
      rw [reads] at readFirst
      rw [parts_of_error readFirst]
      rfl
    | ok read =>
      rw [reads] at readFirst
      cases rest with
      | nil =>
        rw [parts_of_end readFirst rfl]
        rfl
      | cons c rest =>
        obtain rfl := ends c rfl
        rw [parts_of_comma readFirst (skipBlanks_of_not_blank rest isBlank_comma)]
        rfl
  | cons second later ih =>
    obtain ⟨secondRead, laterRead⟩ := List.forall_mem_cons.mp othersRead
    have readFirst := part_body wellRead (endsPart_followingChars (second :: later) ends)
    have tail : followingChars (second :: later) ++ rest =
        ' ' :: (second.chars ++ (followingChars later ++ rest)) := by
      simp [followingChars]
    rw [← starts, tail] at readFirst
    rw [Chain.reread, List.mapM_cons, ← Chain.reread]
    cases reads : first.reread with
    | error problem =>
      rw [reads] at readFirst
      rw [parts_of_error readFirst]
      rfl
    | ok read =>
      rw [reads] at readFirst
      obtain ⟨remaining, startsSecond, following⟩ := parts_of_following secondRead readFirst
      rw [following, ih secondRead laterRead startsSecond]
      cases Chain.reread (second :: later) <;> rfl

private theorem chain_chars {chain : Chain} (wellRead : Chain.WellRead chain) {rest : List Char}
    (ends : EndsChain rest) {cs : List Char} (starts : skipBlanks cs = Chain.chars chain ++ rest) :
    Parser.chain cs = (Chain.reread chain).map fun read => (read, rest) := by
  obtain ⟨first, others, rfl⟩ := List.exists_cons_of_ne_nil wellRead.nonempty
  obtain ⟨firstRead, othersRead⟩ := List.forall_mem_cons.mp wellRead.parts
  have written : Chain.chars (first :: others) ++ rest =
      first.chars ++ (followingChars others ++ rest) := by
    rw [Chain.chars, List.map_cons, intercalate_cons, List.flatMap_map, List.append_assoc]
    rfl
  rw [Parser.chain, starts, written]
  by_cases plain : first.combinator = .descendant
  · rw [chars_of_descendant plain, combinator?_body firstRead]
    have read := parts_chars firstRead othersRead ends (skipBlanks_body firstRead (followingChars others ++ rest))
    rw [plain] at read
    exact read
  · rw [(combinator?_chars plain _).2]
    exact parts_chars firstRead othersRead ends (skipBlanks_body firstRead _)

theorem chains_of_error {cs : List Char} {problem : Problem} (fails : chain cs = .error problem) :
    chains cs = .error problem := by
  rw [chains]
  split <;> simp_all

private theorem skipBlanks_chainChars {chain : Chain} (wellRead : Chain.WellRead chain)
    (rest : List Char) : skipBlanks (Chain.chars chain ++ rest) = Chain.chars chain ++ rest := by
  obtain ⟨first, others, rfl⟩ := List.exists_cons_of_ne_nil wellRead.nonempty
  rw [Chain.chars, List.map_cons, intercalate_cons, List.append_assoc]
  exact skipBlanks_chars (wellRead.parts first List.mem_cons_self) _

def followingChains (chains : List Chain) : List Char :=
  chains.flatMap fun chain => ',' :: ' ' :: Chain.chars chain

private theorem endsChain_followingChains (chains : List Chain) :
    EndsChain (followingChains chains) := by
  cases chains with
  | nil => exact fun c isHead => nomatch isHead
  | cons chain chains => exact fun c isHead => (Option.some.inj isHead).symm

/-- Chains are read back one by one. -/
theorem chains_chars {first : Chain} {others : List Chain} (wellRead : Chain.WellRead first)
    (othersRead : ∀ chain ∈ others, Chain.WellRead chain) {cs : List Char}
    (starts : skipBlanks cs = Chain.chars first ++ followingChains others) :
    chains cs = (first :: others).mapM Chain.reread := by
  induction others generalizing first cs with
  | nil =>
    have readFirst := chain_chars wellRead (endsChain_followingChains []) starts
    rw [List.mapM_cons]
    cases reads : Chain.reread first with
    | error problem =>
      rw [reads] at readFirst
      rw [chains_of_error readFirst]
      rfl
    | ok read =>
      rw [reads] at readFirst
      rw [chains_of_end readFirst rfl]
      rfl
  | cons second later ih =>
    obtain ⟨secondRead, laterRead⟩ := List.forall_mem_cons.mp othersRead
    have readFirst := chain_chars wellRead (endsChain_followingChains (second :: later)) starts
    have comma : skipBlanks (followingChains (second :: later)) =
        ',' :: ' ' :: (Chain.chars second ++ followingChains later) := rfl
    have startsSecond : skipBlanks (' ' :: (Chain.chars second ++ followingChains later)) =
        Chain.chars second ++ followingChains later := by
      rw [skipBlanks_blank]
      exact skipBlanks_chainChars secondRead _
    rw [List.mapM_cons]
    cases reads : Chain.reread first with
    | error problem =>
      rw [reads] at readFirst
      rw [chains_of_error readFirst]
      rfl
    | ok read =>
      rw [reads] at readFirst
      rw [chains_of_comma readFirst comma, ih secondRead laterRead startsSecond]
      cases (second :: later).mapM Chain.reread <;> rfl

end Chains

end Selector.Parser

/-- The canonical text of a selector that was read is read back part by part. -/
theorem Selector.read_text {selector : Selector} (wellRead : selector.WellRead) :
    read selector.text = selector.reread := by
  obtain ⟨chains⟩ := selector
  obtain ⟨first, others, rfl⟩ := List.exists_cons_of_ne_nil wellRead.nonempty
  obtain ⟨firstRead, othersRead⟩ := List.forall_mem_cons.mp wellRead.chains
  have written : Selector.chars ⟨first :: others⟩ = Chain.chars first ++ followingChains others := by
    rw [Selector.chars, List.map_cons, intercalate_cons, List.flatMap_map]
    rfl
  rw [read, Selector.text, String.toList_ofList, written,
    chains_chars firstRead othersRead (skipBlanks_chainChars firstRead _)]
  rfl

section Clean

/-- The operator stays apart from the name, and the value is plainly quoted. -/
def Attribute.Clean (test : Attribute) : Prop :=
  ∀ compared ∈ test.comparison,
    StandsApart test.name.toList compared.1.symbol.toList ∧ QuotesPlainly compared.2

def Pseudo.Clean (test : Pseudo) : Prop := ∀ argument ∈ test.argument, QuotesPlainly argument

def Selector.Clean (selector : Selector) : Prop :=
  ∀ chain ∈ selector.chains, ∀ part ∈ chain,
    (∀ test ∈ part.attributes, test.Clean) ∧ ∀ test ∈ part.pseudos, test.Clean

instance (test : Attribute) : Decidable test.Clean := inferInstanceAs (Decidable (∀ _ ∈ _, _))

instance (test : Pseudo) : Decidable test.Clean := inferInstanceAs (Decidable (∀ _ ∈ _, _))

instance (selector : Selector) : Decidable selector.Clean := inferInstanceAs (Decidable (∀ _ ∈ _, _))

theorem Text.rereadText_eq_iff (text : String) : rereadText text = text ↔ QuotesPlainly text := by
  rw [QuotesPlainly, ← flatMap_reread_eq_iff_plainlyQuoted, rereadText, ← String.toList_inj, String.toList_ofList]

theorem Pseudo.reread_eq_iff (test : Pseudo) : test.reread = test ↔ test.Clean := by
  obtain ⟨named, _ | argument⟩ := test
  · simp [Pseudo.reread, Pseudo.Clean]
  · simp [Pseudo.reread, Pseudo.Clean, rereadText_eq_iff]

theorem Attribute.reread_eq_iff {test : Attribute} (wellRead : test.WellRead) :
    test.reread = .ok test ↔ test.Clean := by
  obtain ⟨named, _ | ⟨operator, value⟩⟩ := test
  · simp [Attribute.reread, Attribute.Clean]
  obtain ⟨isNamed, operatorRead⟩ := wellRead
  obtain ⟨given, isOperator, sameOperator⟩ := operatorRead operator value rfl
  have isClean : Attribute.Clean ⟨named, some (operator, value)⟩ ↔
      nameChars (named.toList ++ operator.symbol.toList) = (named.toList, operator.symbol.toList) ∧
        rereadText value = value := by
    rw [nameChars_append_eq_iff isNamed.2 isOperator given, rereadText_eq_iff]
    simp [Attribute.Clean]
  rw [isClean]
  constructor
  · intro same
    simp only [Attribute.reread] at same
    split at same
    · contradiction
    · contradiction
    next read symbol nonempty reads =>
    simp only [Except.ok.injEq, Attribute.mk.injEq, Option.some.injEq, Prod.mk.injEq] at same
    obtain ⟨rfl, symbolRead, valueRead⟩ := same
    refine ⟨?_, valueRead⟩
    rw [(name_eq_ok_iff.mp reads).2, ← symbolRead, symbol_ofSymbol, String.toList_ofList]
  · rintro ⟨splits, valueRead⟩
    have reads : Parser.name .expectedAttributeName (named.toList ++ operator.symbol.toList) =
        .ok (named, operator.symbol.toList) := name_eq_ok_iff.mpr ⟨isNamed.1, splits⟩
    obtain ⟨c, symbol, isCons⟩ := List.exists_cons_of_ne_nil given
    rw [isCons] at reads
    simp only [Attribute.reread, isCons, reads]
    rw [← isCons, String.ofList_toList, sameOperator, valueRead]

theorem Selector.Parser.mapM_eq_self_iff {α : Type} {read : α → Except Problem α} {items : List α} :
    items.mapM read = .ok items ↔ ∀ item ∈ items, read item = .ok item := by
  induction items with
  | nil => simp [pure, Except.pure]
  | cons item items ih =>
    rw [List.mapM_cons, List.forall_mem_cons, ← ih]
    cases read item with
    | error problem => simp [bind, Except.bind]
    | ok first => cases items.mapM read <;> simp [bind, Except.bind, pure, Except.pure]

theorem Part.reread_eq_iff {part : Part} (wellRead : part.WellRead) : part.reread = .ok part ↔
    (∀ test ∈ part.attributes, test.Clean) ∧ ∀ test ∈ part.pseudos, test.Clean := by
  have attributes : part.attributes.mapM Attribute.reread = .ok part.attributes ↔
      ∀ test ∈ part.attributes, test.Clean :=
    mapM_eq_self_iff.trans (forall₂_congr fun test isTest =>
      Attribute.reread_eq_iff (wellRead.attributes test isTest))
  have pseudos : part.pseudos.map Pseudo.reread = part.pseudos ↔ ∀ test ∈ part.pseudos, test.Clean := by
    calc part.pseudos.map Pseudo.reread = part.pseudos
      _ ↔ part.pseudos.map Pseudo.reread = part.pseudos.map fun test => test := by rw [List.map_id']
      _ ↔ ∀ test ∈ part.pseudos, test.reread = test := List.map_inj_left
      _ ↔ ∀ test ∈ part.pseudos, test.Clean := forall₂_congr fun test _ => test.reread_eq_iff
  rw [Part.reread, ← attributes, ← pseudos, map_eq_ok]
  constructor
  · rintro ⟨read, reads, same⟩
    have sameAttributes : read = part.attributes := congrArg Part.attributes same
    exact ⟨sameAttributes ▸ reads, congrArg Part.pseudos same⟩
  · rintro ⟨reads, same⟩
    exact ⟨part.attributes, reads, by rw [same]⟩

theorem Selector.reread_eq_iff {selector : Selector} (wellRead : selector.WellRead) :
    selector.reread = .ok selector ↔ selector.Clean := by
  have chains : selector.chains.mapM Chain.reread = .ok selector.chains ↔ selector.Clean :=
    mapM_eq_self_iff.trans (forall₂_congr fun chain isChain =>
      mapM_eq_self_iff.trans (forall₂_congr fun part isPart =>
        Part.reread_eq_iff ((wellRead.chains chain isChain).parts part isPart)))
  rw [← chains, Selector.reread, map_eq_ok]
  constructor
  · rintro ⟨read, reads, rfl⟩
    exact reads
  · intro reads
    exact ⟨selector.chains, reads, rfl⟩

/-- The canonical text of a selector that was parsed is parsed as that selector exactly if it is clean. -/
theorem Selector.parse_text_iff_clean {text : String} {selector : Selector}
    (parses : parse text = .ok selector) : parse selector.text = .ok selector ↔ selector.Clean := by
  have wellRead := wellRead_of_read (parse_eq_ok.mp parses)
  rw [parse_eq_ok, read_text wellRead, reread_eq_iff wellRead]

/-- An operator that starts with a dash runs together with the name, and a quoted line end comes back. -/
theorem Selector.parse_text_iff_clean_dash :
    (∃ selector, parse "[a -=x]" = .ok selector ∧ parse selector.text ≠ .ok selector) ∧
      ∃ selector, parse "[a$=\"\\n\"]" = .ok selector ∧ parse selector.text = .ok selector := by
  have dashed : parse "[a -=x]" =
      .ok ⟨[[⟨.descendant, none, none, [], [⟨"a", some (.unknown "-=", "x")⟩], []⟩]]⟩ :=
    parse_eq_ok.mpr (read_of_attribute rfl rfl)
  have quoted : parse "[a$=\"\\n\"]" =
      .ok ⟨[[⟨.descendant, none, none, [], [⟨"a", some (.endsWith, "\n")⟩], []⟩]]⟩ :=
    parse_eq_ok.mpr (read_of_attribute rfl rfl)
  refine ⟨⟨_, dashed, ?_⟩, _, quoted, ?_⟩
  · rw [Ne, parse_text_iff_clean dashed]
    decide
  · rw [parse_text_iff_clean quoted]
    decide

end Clean

end Arbor
