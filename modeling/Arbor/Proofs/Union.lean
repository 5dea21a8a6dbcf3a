import Arbor.Proofs.Evaluation
import Arbor.Proofs.Reading

/-! # Selectors joined by a comma

The chains of a selector share what they remember, under the identity of a context and the text of a
part. A chain that is evaluated later may therefore remember what a different part of the same text
found. Where parts of the two selectors that share a text find the same, a comma joins what the two
find; where they do not, the second selector can lose its own answers, and for selectors of one part
each this is said exactly. -/

namespace Arbor.Tree

variable {catalogue : Catalogue}

section Agreement

variable {tree : Tree catalogue}

/-- The two memos make no difference to the parts. -/
def Agree (tree : Tree catalogue) (parts : List Part) (first second : Memo) : Prop :=
  ∀ part ∈ parts, ∀ handle, tree.hasHandle handle = true →
    tree.remembered first part handle = tree.remembered second part handle

theorem Agree.expandPart {parts : List Part} {first second : Memo}
    (agree : tree.Agree parts first second) {part : Part} (isPart : part ∈ parts) {handle : Handle}
    (present : tree.hasHandle handle = true) :
    tree.Agree parts (tree.expandPart first (.item handle) part).2
      (tree.expandPart second (.item handle) part).2 := by
  intro other isOther elsewhere inTree
  rw [remembered_expandPart, remembered_expandPart, agree part isPart handle present,
    agree other isOther elsewhere inTree]

theorem Agree.expandAll {parts : List Part} {first second : Memo}
    (agree : tree.Agree parts first second) {part : Part} (isPart : part ∈ parts)
    {handles : List Handle} (present : tree.HasAll handles) :
    (tree.expandAll part first (handles.map .item)).1 =
        (tree.expandAll part second (handles.map .item)).1 ∧
      tree.Agree parts (tree.expandAll part first (handles.map .item)).2
        (tree.expandAll part second (handles.map .item)).2 := by
  induction handles generalizing first second with
  | nil => exact ⟨rfl, agree⟩
  | cons handle rest ih =>
    obtain ⟨here, others⟩ := List.forall_mem_cons.mp present
    obtain ⟨sameRest, agreeRest⟩ := ih (agree.expandPart isPart here) others
    rw [expandAll_cons_fst, expandAll_cons_fst, agree part isPart handle here, sameRest]
    exact ⟨rfl, agreeRest⟩

/-- Memos that make no difference to the parts of a chain make none to the chain. -/
theorem Agree.evaluateParts (identified : tree.Identified) {parts : List Part} {first second : Memo}
    (agree : tree.Agree parts first second) (recorded : tree.Recorded second) {chain : Chain}
    (among : ∀ part ∈ chain, part ∈ parts) {handles : List Handle} (present : tree.HasAll handles)
    (matched : List Value) :
    (tree.evaluateParts first (handles.map .item) matched chain).1 =
        (tree.evaluateParts second (handles.map .item) matched chain).1 ∧
      tree.Agree parts (tree.evaluateParts first (handles.map .item) matched chain).2
        (tree.evaluateParts second (handles.map .item) matched chain).2 := by
  induction chain generalizing first second handles matched with
  | nil => exact ⟨rfl, agree⟩
  | cons part rest ih =>
    obtain ⟨isPart, restAmong⟩ := List.forall_mem_cons.mp among
    obtain ⟨same, agreeThen⟩ := agree.expandAll isPart present
    have later : tree.Recorded (tree.expandAll part second (handles.map .item)).2 := by
      refine expandAll_keeps (fun memo handle inTree kept => ?_) present recorded
      exact kept.expandPart part inTree
    rw [evaluateParts_cons, evaluateParts_cons, same]
    split
    · exact ⟨rfl, agreeThen⟩
    · exact ih agreeThen later restAmong
        ((recorded.expandAll part present).distinct identified) _

theorem Agree.evaluateChains (identified : tree.Identified) {start : Handle}
    (present : tree.hasHandle start = true) {chains : List Chain} {first second : Memo}
    (agree : tree.Agree chains.flatten first second) (recorded : tree.Recorded second) :
    tree.evaluateChains (.item start) first chains = tree.evaluateChains (.item start) second chains := by
  have alone : tree.HasAll [start] := List.forall_mem_singleton.mpr present
  induction chains generalizing first second with
  | nil => rfl
  | cons chain rest ih =>
    have among : ∀ part ∈ chain, part ∈ (chain :: rest).flatten := fun part isPart =>
      List.mem_append_left _ isPart
    obtain ⟨same, agreeThen⟩ := agree.evaluateParts identified recorded among alone []
    have later := (recorded.evaluateParts identified present chain).1
    calc (tree.evaluateParts first [.item start] [] chain).1 ++ tree.evaluateChains (.item start)
          (tree.evaluateParts first [.item start] [] chain).2 rest
        = (tree.evaluateParts second [.item start] [] chain).1 ++ tree.evaluateChains (.item start)
          (tree.evaluateParts first [.item start] [] chain).2 rest := congrArg (· ++ _) same
      _ = (tree.evaluateParts second [.item start] [] chain).1 ++ tree.evaluateChains (.item start)
          (tree.evaluateParts second [.item start] [] chain).2 rest :=
        congrArg (_ ++ ·) (ih (fun part isPart => agreeThen part (List.mem_append_right _ isPart)) later)

/-- What is remembered after some chains. -/
def memoAfter (tree : Tree catalogue) (start : Context) : Memo → List Chain → Memo
  | memo, [] => memo
  | memo, chain :: rest => tree.memoAfter start (tree.evaluateParts memo [start] [] chain).2 rest

private theorem evaluateChains_append (start : Context) (memo : Memo) (front back : List Chain) :
    tree.evaluateChains start memo (front ++ back) = tree.evaluateChains start memo front ++
      tree.evaluateChains start (tree.memoAfter start memo front) back := by
  induction front generalizing memo with
  | nil => rfl
  | cons chain rest ih => simp [evaluateChains, memoAfter, ih]

/-- Chains that are compatible with some parts leave a transparent memo transparent to them. -/
theorem Transparent.memoAfter (identified : tree.Identified) {parts : List Part} {start : Handle}
    (present : tree.hasHandle start = true) {chains : List Chain}
    (compatible : ∀ part ∈ chains.flatten, ∀ other ∈ parts, tree.Compatible part other) {memo : Memo}
    (transparent : tree.Transparent parts memo) :
    tree.Transparent parts (tree.memoAfter (.item start) memo chains) := by
  have alone : tree.HasAll [start] := List.forall_mem_singleton.mpr present
  induction chains generalizing memo with
  | nil => exact transparent
  | cons chain rest ih =>
    refine ih (fun part isPart => compatible part (List.mem_append_right _ isPart)) ?_
    refine (evaluateParts_keeps identified (fun _ kept => kept.recorded) ?_ alone inTree_nil
      transparent).1
    intro part isPart memo handle inTree kept
    exact kept.expandPart identified (compatible part (List.mem_append_left _ isPart)) inTree

/-- A later selector finds from a transparent memo what it would find alone. -/
theorem WellFormed.evaluateChains_memoAfter (formed : tree.WellFormed) (identified : tree.Identified)
    {start : Handle} (present : tree.hasHandle start = true) {front back : List Chain}
    (compatible : ∀ part ∈ front.flatten, ∀ other ∈ back.flatten, tree.Compatible part other) :
    tree.evaluateChains (.item start) (tree.memoAfter (.item start) [] front) back =
      tree.evaluateChains (.item start) [] back := by
  have recorded := formed.recorded_nil identified
  have later : tree.Transparent back.flatten (tree.memoAfter (.item start) [] front) :=
    Transparent.memoAfter identified present compatible ⟨recorded, fun part _ => faithful_nil part⟩
  refine Agree.evaluateChains identified present (fun part isPart handle inTree => ?_) recorded
  exact later.faithful part isPart handle inTree

end Agreement

section Nodes

variable {tree : Tree catalogue}

theorem contains_node_iff {values : List Value} {n : NodeId} :
    values.contains (.node n) = true ↔ .node n ∈ values := by
  rw [List.contains_eq_any_beq, List.any_eq_true]
  constructor
  · rintro ⟨value, member, same⟩
    cases value with
    | node m =>
      have sameId : (n == m) = true := same
      rw [eq_of_beq sameId]
      exact member
    | scalar s => exact absurd same Bool.false_ne_true
    | list l => exact absurd same Bool.false_ne_true
  · exact fun member => ⟨.node n, member, beq_self_eq_true n⟩

/-- The node is among what is found, or an item of a list that is. -/
def Answers (tree : Tree catalogue) (found : List Value) (n : NodeId) : Prop :=
  .node n ∈ handlesOf found ∨ ∃ l, .list l ∈ handlesOf found ∧ some n ∈ tree.items l

private theorem answers_of_mem {found : List Value} {n : NodeId} (member : .node n ∈ found) :
    tree.Answers found n := .inl (mem_handlesOf.mpr member)

private theorem answers_cons_list {l : ListId} {rest : List Value} {n : NodeId} :
    tree.Answers (.list l :: rest) n ↔ some n ∈ tree.items l ∨ tree.Answers rest n := by
  simp only [Answers, mem_handlesOf_cons, Value.handle?, Option.some.injEq, reduceCtorEq, false_or,
    Handle.list.injEq, or_and_right, exists_or, exists_eq_left']
  exact or_left_comm

private theorem answers_cons {value : Value} (noList : ∀ l, value ≠ .list l) {rest : List Value}
    {n : NodeId} : tree.Answers (value :: rest) n ↔ value = .node n ∨ tree.Answers rest n := by
  have isNode : value.handle? = some (.node n) ↔ value = .node n := handle?_eq_some
  have isList (l : ListId) : ¬ value.handle? = some (.list l) := fun is =>
    noList l (handle?_eq_some.mp is)
  simp only [Answers, mem_handlesOf_cons, isNode, isList, false_or, or_assoc]

private theorem mem_flattenInto_iff {before after : List Value} {n : NodeId} :
    .node n ∈ tree.flattenInto before after ↔ .node n ∈ after ∨ tree.Answers before n := by
  fun_induction flattenInto tree before after with
  | case1 after => simp [Answers, handlesOf]
  | case2 l before after members fresh ih =>
    have isFresh : .node n ∈ fresh ↔ some n ∈ tree.items l ∧ .node n ∉ before ∧ .node n ∉ after := by
      simp [fresh, members, ← Bool.not_eq_true, contains_node_iff]
    have among : .node n ∈ before → tree.Answers before n := answers_of_mem
    rw [ih, List.mem_append, isFresh, answers_cons_list]
    constructor
    · rintro ((⟨isItem, _, _⟩ | isAfter) | isAnswer)
      · exact .inr (.inl isItem)
      · exact .inl isAfter
      · exact .inr (.inr isAnswer)
    · rintro (isAfter | isItem | isAnswer)
      · exact .inl (.inr isAfter)
      · -- An item of the list is new unless it was found before or comes later.
        by_cases isBefore : .node n ∈ before
        · exact .inr (among isBefore)
        · by_cases isAfter : .node n ∈ after
          · exact .inl (.inr isAfter)
          · exact .inl (.inl ⟨isItem, isBefore, isAfter⟩)
      · exact .inr isAnswer
  | case3 value before after noList ih =>
    rw [ih, List.mem_cons, answers_cons noList, eq_comm, or_left_comm, or_assoc]

/-- Lists in an answer are replaced by their nodes. -/
theorem mem_flatten_iff {found : List Value} {n : NodeId} :
    .node n ∈ tree.flatten found ↔ tree.Answers found n := by
  have reversed (handle : Handle) : handle ∈ handlesOf found.reverse ↔ handle ∈ handlesOf found := by
    rw [mem_handlesOf, mem_handlesOf, List.mem_reverse]
  rw [flatten, mem_flattenInto_iff]
  simp [Answers, reversed]

/-- The nodes of an answer depend on the nodes and lists found only. -/
theorem answers_of_same {first second : List Value}
    (same : ∀ handle, handle ∈ handlesOf first ↔ handle ∈ handlesOf second) (n : NodeId) :
    tree.Answers first n ↔ tree.Answers second n := by
  simp only [Answers, same]

private theorem answers_append {first second : List Value} {n : NodeId} :
    tree.Answers (first ++ second) n ↔ tree.Answers first n ∨ tree.Answers second n := by
  simp only [Answers, mem_handlesOf_append, or_and_right, exists_or]
  exact or_or_or_comm

theorem search_of_parse {start : Handle} {text : String} {selector : Selector}
    (parsed : Selector.parse text = .ok selector)
    (known : ∀ name ∈ selector.typeNames, catalogue.knows name = true) :
    tree.search start text = .ok (tree.flatten (tree.evaluate (.item start) selector)) := by
  have checked : tree.checkTypes selector = .ok () := by
    rw [checkTypes, List.find?_eq_none.mpr]
    exact fun name isName => by simp [known name isName]
  rw [search, parsed]
  simp only [searchSelector, checked]

/-- The nodes a selector finds are those its chains find. -/
theorem WellFormed.mem_answer_iff (formed : tree.WellFormed) (identified : tree.Identified)
    {start : Handle} (present : tree.hasHandle start = true) (selector : Selector) (n : NodeId) :
    .node n ∈ tree.flatten (tree.evaluate (.item start) selector) ↔
      tree.Answers (tree.evaluateChains (.item start) [] selector.chains) n := by
  rw [mem_flatten_iff]
  refine answers_of_same (distinct_spec identified ?_).2 n
  exact (formed.recorded_nil identified).evaluateChains identified present selector.chains

theorem evaluateParts_singleton (memo : Memo) (start : Handle) (matched : List Value) (part : Part) :
    tree.evaluateParts memo [.item start] matched [part] =
      (tree.distinct (tree.remembered memo part start), (tree.expandPart memo (.item start) part).2) := by
  have found : tree.expandAll part memo [.item start] =
      (tree.remembered memo part start, (tree.expandPart memo (.item start) part).2) := by
    rw [← expandPart_fst]
    simp [expandAll]
  rw [evaluateParts_cons, found]
  split
  · next none => rw [none]
  · rfl

/-- A second part of the same text recalls what the first found. -/
theorem evaluateChains_same_text {start : Handle} {first second : Part}
    (sameText : first.text = second.text) :
    tree.evaluateChains (.item start) (tree.memoAfter (.item start) [] [[first]]) [[second]] =
      tree.evaluateChains (.item start) [] [[first]] := by
  have recalled : tree.remembered (tree.expandPart [] (.item start) first).2 second start =
      tree.remembered [] first start := by
    rw [remembered_expandPart, if_pos (by rw [sameText])]
  simp only [evaluateChains, memoAfter, evaluateParts_singleton, recalled]

end Nodes

/-- A comma keeps all the first selector finds. It joins what the two find if parts of them that share
a text find the same; of two single parts that share a text only the first counts, so that the comma
joins what they find exactly if the second finds nothing new. -/
theorem search_comma {tree : Tree catalogue} (reachable : tree.Reachable) {start : Handle}
    (present : tree.hasHandle start = true) {first second : String} {front back : Selector}
    (parsedFirst : Selector.parse first = .ok front) (parsedSecond : Selector.parse second = .ok back)
    (known : ∀ name ∈ front.typeNames ++ back.typeNames, catalogue.knows name = true) :
    ∃ foundFirst foundSecond found, tree.search start first = .ok foundFirst ∧
      tree.search start second = .ok foundSecond ∧
      tree.search start (first ++ "," ++ second) = .ok found ∧
      (∀ n, .node n ∈ foundFirst → .node n ∈ found) ∧
      ((∀ p ∈ front.chains.flatten, ∀ q ∈ back.chains.flatten, tree.Compatible p q) →
        ∀ n, .node n ∈ found ↔ .node n ∈ foundFirst ∨ .node n ∈ foundSecond) ∧
      ∀ p q, front.chains = [[p]] → back.chains = [[q]] → p.text = q.text →
        ((∀ n, .node n ∈ found ↔ .node n ∈ foundFirst ∨ .node n ∈ foundSecond) ↔
          ∀ n, .node n ∈ foundSecond → .node n ∈ foundFirst) := by
  have formed := reachable.wellFormed
  have identified := reachable.identified
  have parsedBoth : Selector.parse (first ++ "," ++ second) = .ok ⟨front.chains ++ back.chains⟩ := by
    rw [Selector.parse_eq_ok] at parsedFirst parsedSecond ⊢
    exact Selector.read_comma parsedFirst parsedSecond
  have knownBoth : ∀ name ∈ Selector.typeNames ⟨front.chains ++ back.chains⟩,
      catalogue.knows name = true := by
    rw [Selector.typeNames, List.flatten_append, List.filterMap_append]
    exact known
  have joined (n : NodeId) := (formed.mem_answer_iff identified present
    ⟨front.chains ++ back.chains⟩ n).trans (evaluateChains_append (.item start) [] front.chains
      back.chains ▸ answers_append)
  have ofFirst := formed.mem_answer_iff identified present front
  have ofSecond := formed.mem_answer_iff identified present back
  refine ⟨_, _, _, search_of_parse parsedFirst fun name isName => known name (List.mem_append_left _ isName),
    search_of_parse parsedSecond fun name isName => known name (List.mem_append_right _ isName),
    search_of_parse parsedBoth knownBoth, ?_, ?_, ?_⟩
  · intro n isFirst
    exact (joined n).mpr (.inl ((ofFirst n).mp isFirst))
  · intro compatible n
    rw [joined, ofFirst, ofSecond, formed.evaluateChains_memoAfter identified present compatible]
  · intro p q onlyFirst onlySecond sameText
    have onlyFirstCounts (n : NodeId) :
        .node n ∈ tree.flatten (tree.evaluate (.item start) ⟨front.chains ++ back.chains⟩) ↔
          .node n ∈ tree.flatten (tree.evaluate (.item start) front) := by
      rw [joined, ofFirst, onlyFirst, onlySecond, evaluateChains_same_text sameText, or_self]
    simp only [onlyFirstCounts, iff_self_or]

/-- A block with two others in its list, one under whose key `a$` there is a text, and one under whose
key `a` there is a text with the same ending. -/
def twoKeys : Tree blocks :=
  (empty blocks 1).run [.createNode "Block", .createNode "Block", .createNode "Block",
    .push ⟨0⟩ (.node ⟨1⟩), .push ⟨0⟩ (.node ⟨2⟩), .setMetadata ⟨1⟩ [("a$", .string "x")],
    .setMetadata ⟨2⟩ [("a", .string "yx")]]

/-- The key `a$` compared for equality and the key `a` compared by its ending have the same text, and
the comma loses what only the second finds. -/
theorem search_comma_twoKeys :
    twoKeys.Reachable ∧ twoKeys.hasHandle (.node ⟨0⟩) = true ∧
    ∃ front back, Selector.parse "[a$ =x]" = .ok front ∧ Selector.parse "[a$=x]" = .ok back ∧
      (∀ name ∈ front.typeNames ++ back.typeNames, blocks.knows name = true) ∧
      ∃ foundFirst foundSecond found, twoKeys.search (.node ⟨0⟩) "[a$ =x]" = .ok foundFirst ∧
        twoKeys.search (.node ⟨0⟩) "[a$=x]" = .ok foundSecond ∧
        twoKeys.search (.node ⟨0⟩) "[a$ =x],[a$=x]" = .ok found ∧
        ¬ ∀ n, .node n ∈ found ↔ .node n ∈ foundFirst ∨ .node n ∈ foundSecond := by
  have reachable : twoKeys.Reachable := ⟨1, _, rfl⟩
  have present : twoKeys.hasHandle (.node ⟨0⟩) = true := by decide +kernel
  let equal : Part := ⟨.descendant, none, none, [], [⟨"a$", some (.equal, "x")⟩], []⟩
  let ending : Part := ⟨.descendant, none, none, [], [⟨"a", some (.endsWith, "x")⟩], []⟩
  have parsedFirst : Selector.parse "[a$ =x]" = .ok ⟨[[equal]]⟩ :=
    Selector.parse_eq_ok.mpr (Selector.read_of_attribute rfl rfl)
  have parsedSecond : Selector.parse "[a$=x]" = .ok ⟨[[ending]]⟩ :=
    Selector.parse_eq_ok.mpr (Selector.read_of_attribute rfl rfl)
  have known : ∀ name ∈ Selector.typeNames ⟨[[equal]]⟩ ++ Selector.typeNames ⟨[[ending]]⟩,
      blocks.knows name = true := by decide +kernel
  obtain ⟨foundFirst, foundSecond, found, searchFirst, searchSecond, searchBoth, -, -, exactly⟩ :=
    search_comma reachable present parsedFirst parsedSecond known
  have onlySecond : .node ⟨2⟩ ∈ foundSecond ∧ .node ⟨2⟩ ∉ foundFirst := by
    rw [search_of_parse parsedFirst (by decide +kernel), Except.ok.injEq] at searchFirst
    rw [search_of_parse parsedSecond (by decide +kernel), Except.ok.injEq] at searchSecond
    rw [← searchFirst, ← searchSecond, ← contains_node_iff, ← contains_node_iff]
    decide +kernel
  refine ⟨reachable, present, _, _, parsedFirst, parsedSecond, known, foundFirst, foundSecond, found,
    searchFirst, searchSecond, searchBoth, fun joins => ?_⟩
  have sameText : equal.text = ending.text := by decide +kernel
  exact onlySecond.2 ((exactly equal ending rfl rfl sameText).mp joins ⟨2⟩ onlySecond.1)

end Arbor.Tree
