import Arbor.Proofs.Evaluation
import Arbor.Proofs.Inverse
import Arbor.Proofs.Reading

/-! # Testing a part and finding by it

A single part is tested on a node or list directly, under the key that is looked up, and whatever its
combinator. Everything else is evaluated from the document around the root. The two agree on parts that
look below the document: the walk down from the root comes to every node and list of the tree, and either
under the key that is looked up or, at the root itself, under none. -/

namespace Arbor.Tree

variable {catalogue : Catalogue}

section Document

variable {tree : Tree catalogue}

theorem WellFormed.within_root (formed : tree.WellFormed) (handle : Handle) :
    tree.Within handle (tree.root handle) := by
  have last : tree.root handle ∈ handle :: tree.ancestors handle := List.getLastD_mem_cons
  rcases List.mem_cons.mp last with same | above
  · rw [same]
    exact .refl
  · exact ((formed.acyclic.mem_ancestors_iff formed.owned).mp above).to_reflTransGen

/-- What holds something is a node or a list that belongs to a field. -/
theorem Owned.settled_of_holds (owned : tree.Owned) {inner outer : Handle}
    (held : tree.HeldBy inner outer) : tree.Settled outer := by
  rintro l rfl
  cases inner with
  | node c => exact (owned.mem_item_iff.mpr held).1
  | list k =>
    obtain ⟨owner, -, isList⟩ := Option.map_eq_some_iff.mp held
    cases isList

theorem Owned.settled_of_below (owned : tree.Owned) {inner outer : Handle}
    (below : tree.Below inner outer) : tree.Settled outer := by
  obtain ⟨_, -, held⟩ := Relation.TransGen.tail'_iff.mp below
  exact owned.settled_of_holds held

theorem Owned.settled_of_descends (owned : tree.Owned) {boundary : List String}
    {handle candidate : Handle} {key : Key}
    (descends : tree.Descends boundary handle key candidate) : tree.Settled candidate := by
  induction descends with
  | direct step clear => exact (owned.of_childAt step).2.1
  | deeper step clear rest ih => exact ih

private theorem expandDocument_descendant (tree : Tree catalogue) (root : Handle) :
    tree.expandDocument root .descendant = (.ofHandle root, none) :: tree.descend [] root := by
  have outside : tree.atBoundary [] (.ofHandle root) = false := by cases root <;> rfl
  simp [expandDocument, Combinator.boundary, outside]

/-- The walk down from the root of a node or list comes to it under a key that is the one looked up, or
under none. -/
theorem WellFormed.key_of_mem_document (formed : tree.WellFormed) {handle : Handle} {key : Option Key}
    (visits : (.ofHandle handle, key) ∈ tree.expandDocument (tree.root handle) .descendant) :
    key = none ∨ key = tree.keyOf? handle := by
  rw [expandDocument_descendant] at visits
  obtain here | below := List.mem_cons.mp visits
  · exact .inl (Prod.mk.inj here).2
  · obtain ⟨k, rfl, descends⟩ := formed.mem_descend_iff.mp below
    obtain same | under := within_iff.mp (formed.within_root handle)
    · -- Nothing is below itself, and a free list is below nothing at all.
      rw [same] at descends
      have settled := formed.owned.settled_of_descends descends
      exact absurd (formed.owned.below_of_descends settled descends).1 (formed.acyclic handle)
    · exact .inr (formed.owned.below_of_descends (formed.owned.settled_of_below under) descends).2.symm

theorem WellFormed.exists_mem_document (formed : tree.WellFormed) (handle : Handle) :
    ∃ key, (.ofHandle handle, key) ∈ tree.expandDocument (tree.root handle) .descendant := by
  rw [expandDocument_descendant]
  obtain same | below := within_iff.mp (formed.within_root handle)
  · rw [same]
    exact ⟨none, List.mem_cons_self ..⟩
  · obtain ⟨k, descends⟩ := formed.owned.exists_descends below
    exact ⟨some k, List.mem_cons_of_mem _ (formed.mem_descend_iff.mpr ⟨k, rfl, descends⟩)⟩

theorem passesPart_combinator (value : Value) (key : Option Key) (part : Part)
    (combinator : Combinator) :
    tree.passesPart value key { part with combinator } = tree.passesPart value key part := by
  cases value <;> rfl

/-- A key that is the one looked up makes no difference to a test. -/
theorem passesPart_keyOf? (handle : Handle) (part : Part) :
    tree.passesPart (.ofHandle handle) (tree.keyOf? handle) part =
      tree.passesPart (.ofHandle handle) none part := by
  cases handle <;> simp [passesPart, Value.ofHandle, passesTag]

section Found

variable (formed : tree.WellFormed) (identified : tree.Identified) {handle : Handle}
  (present : tree.hasHandle handle = true)
include formed identified present

/-- A part that looks below the document finds what passes it when tested directly. -/
theorem WellFormed.matchPart_document {part : Part} (below : part.combinator = .descendant) :
    tree.InTree (tree.matchPart (.document (tree.root handle)) part) ∧
      (handle ∈ handlesOf (tree.matchPart (.document (tree.root handle)) part) ↔
        tree.passesPart (.ofHandle handle) none part = true) := by
  have passing (found : Handle) :
      found ∈ handlesOf (((tree.expand (.document (tree.root handle)) part.combinator).filter
        fun entry => tree.passesPart entry.1 entry.2 part).map (·.1)) ↔
      ∃ key, (.ofHandle found, key) ∈ tree.expandDocument (tree.root handle) .descendant ∧
        tree.passesPart (.ofHandle found) key part = true := by
    simp only [mem_handlesOf, List.mem_map, List.mem_filter, below]
    constructor
    · rintro ⟨⟨value, key⟩, isPassing, rfl⟩
      exact ⟨key, isPassing⟩
    · rintro ⟨key, isPassing⟩
      exact ⟨(.ofHandle found, key), isPassing, rfl⟩
  have inTree : tree.InTree (((tree.expand (.document (tree.root handle)) part.combinator).filter
      fun entry => tree.passesPart entry.1 entry.2 part).map (·.1)) := by
    intro found member
    obtain ⟨key, visits, -⟩ := (passing found).mp member
    exact formed.hasHandle_of_expandDocument (formed.hasHandle_root present) visits
  refine ⟨inTree.distinct identified, ((distinct_spec identified inTree).2 handle).trans ?_⟩
  rw [passing]
  constructor
  · rintro ⟨key, visits, passes⟩
    obtain rfl | rfl := formed.key_of_mem_document visits
    · exact passes
    · rwa [passesPart_keyOf?] at passes
  · intro passes
    obtain ⟨key, visits⟩ := formed.exists_mem_document handle
    refine ⟨key, visits, ?_⟩
    obtain rfl | rfl := formed.key_of_mem_document visits
    · exact passes
    · rwa [passesPart_keyOf?]

end Found

/-- Nothing is remembered of what is found from a document. -/
theorem evaluateParts_document (memo : Memo) (root : Handle) (matched : List Value) (part : Part) :
    tree.evaluateParts memo [.document root] matched [part] =
      (tree.distinct (tree.matchPart (.document root) part), memo) := by
  have found : tree.expandAll part memo [.document root] =
      (tree.matchPart (.document root) part, memo) := by simp [expandAll, expandPart]
  rw [evaluateParts_cons, found]
  split
  · next none => rw [none]
  · rfl

private theorem evaluateChains_document (memo : Memo) (root : Handle) (parts : List Part) :
    tree.evaluateChains (.document root) memo (parts.map fun part => [part]) =
      parts.flatMap fun part => tree.distinct (tree.matchPart (.document root) part) := by
  induction parts generalizing memo with
  | nil => rfl
  | cons part rest ih =>
    rw [List.map_cons, evaluateChains, evaluateParts_document]
    dsimp only
    rw [ih, List.flatMap_cons]

section Selected

variable (formed : tree.WellFormed) (identified : tree.Identified) {handle : Handle}
  (present : tree.hasHandle handle = true)
include formed identified present

/-- Parts that look below the document find together what passes one of them when tested directly. -/
theorem WellFormed.evaluate_document {parts : List Part}
    (below : ∀ part ∈ parts, part.combinator = .descendant) :
    tree.InTree (tree.evaluate (.document (tree.root handle)) ⟨parts.map fun part => [part]⟩) ∧
      (handle ∈ handlesOf (tree.evaluate (.document (tree.root handle))
          ⟨parts.map fun part => [part]⟩) ↔
        ∃ part ∈ parts, tree.passesPart (.ofHandle handle) none part = true) := by
  have member (found : Handle) : found ∈ handlesOf (parts.flatMap fun part =>
      tree.distinct (tree.matchPart (.document (tree.root handle)) part)) ↔
      ∃ part ∈ parts, found ∈ handlesOf (tree.matchPart (.document (tree.root handle)) part) := by
    rw [mem_handlesOf, List.mem_flatMap]
    refine exists_congr fun part => and_congr_right fun isPart => ?_
    rw [← mem_handlesOf]
    exact (distinct_spec identified
      (formed.matchPart_document identified present (below part isPart)).1).2 found
  have inTree : tree.InTree (parts.flatMap fun part =>
      tree.distinct (tree.matchPart (.document (tree.root handle)) part)) := by
    intro found isFound
    obtain ⟨part, isPart, finds⟩ := (member found).mp isFound
    exact (formed.matchPart_document identified present (below part isPart)).1 found finds
  rw [evaluate, evaluateChains_document]
  refine ⟨inTree.distinct identified, ((distinct_spec identified inTree).2 handle).trans ?_⟩
  rw [member]
  refine exists_congr fun part => and_congr_right fun isPart => ?_
  exact (formed.matchPart_document identified present (below part isPart)).2

end Selected

/-- In a tree whose identities differ, something is found exactly if its identity is. -/
theorem any_identity_iff (identified : tree.Identified) {found : List Value}
    (inTree : tree.InTree found) {handle : Handle} (present : tree.hasHandle handle = true) :
    (found.any fun value => tree.identity? value == some (tree.uid handle)) = true ↔
      handle ∈ handlesOf found := by
  rw [List.any_eq_true, mem_handlesOf]
  constructor
  · rintro ⟨value, isFound, same⟩
    obtain ⟨other, isHandle, sameUid⟩ := Option.map_eq_some_iff.mp (beq_iff_eq.mp same)
    obtain rfl := handle?_eq_some.mp isHandle
    obtain rfl := identified.distinct (inTree other (mem_handlesOf.mpr isFound)) present sameUid
    exact isFound
  · intro isFound
    exact ⟨_, isFound, by simp [identity?]⟩

theorem checkTypes_singleton {part : Part}
    (known : ∀ name, part.id = some name → catalogue.knows name = true) :
    tree.checkTypes ⟨[[part]]⟩ = .ok () := by
  cases named : part.id with
  | none => simp [checkTypes, Selector.typeNames, named]
  | some name => simp [checkTypes, Selector.typeNames, named, known name named]

private theorem checkTypes_twice (part : Part) :
    tree.checkTypes ⟨[[part], [part]]⟩ = tree.checkTypes ⟨[[part]]⟩ := by
  cases named : part.id with
  | none => simp [checkTypes, Selector.typeNames, named]
  | some name =>
    by_cases known : catalogue.knows name = true <;>
      simp [checkTypes, Selector.typeNames, named, known]

/-- A part that looks below, given twice, is not tested directly, but it selects the same. -/
theorem WellFormed.matchesSelector_twice (formed : tree.WellFormed) (identified : tree.Identified)
    {handle : Handle} (present : tree.hasHandle handle = true) {part : Part}
    (below : part.combinator = .descendant) :
    tree.matchesSelector handle ⟨[[part], [part]]⟩ = tree.matchesSelector handle ⟨[[part]]⟩ := by
  obtain ⟨inTree, finds⟩ := formed.evaluate_document identified present
    (show ∀ other ∈ [part, part], other.combinator = .descendant by simp [below])
  have same : ((tree.evaluate (.document (tree.root handle)) ⟨[[part], [part]]⟩).any fun value =>
      tree.identity? value == some (tree.uid handle)) =
      tree.passesPart (.ofHandle handle) none part := by
    rw [Bool.eq_iff_iff]
    refine (any_identity_iff identified inTree present).trans (finds.trans ?_)
    simp
  rw [matchesSelector, matchesSelector, checkTypes_twice]
  cases tree.checkTypes ⟨[[part]]⟩ with
  | error error => rfl
  | ok _ => exact congrArg Except.ok same

theorem matchesText_of_parse {handle : Handle} {text : String} {selector : Selector}
    (parsed : Selector.parse text = .ok selector) :
    tree.matchesText handle text = tree.matchesSelector handle selector := by
  rw [matchesText, parsed]

end Document

/-- A part that is tested on a node or list directly is passed exactly if the part, looking below the
document around the root, finds it. So a text of one part that looks below selects the same as the text
written twice with a comma between, which is not tested directly. -/
theorem direct_test_agrees {tree : Tree catalogue} (reachable : tree.Reachable) {handle : Handle}
    (present : tree.hasHandle handle = true) :
    (∀ part : Part,
      ((∀ name, part.id = some name → catalogue.knows name = true) →
        tree.matchesSelector handle ⟨[[part]]⟩ =
          .ok (tree.passesPart (.ofHandle handle) none part)) ∧
      (tree.passesPart (.ofHandle handle) none part = true ↔
        .ofHandle handle ∈ tree.evaluate (.document (tree.root handle))
          ⟨[[{ part with combinator := .descendant }]]⟩)) ∧
    ∀ (text : String) (part : Part), Selector.parse text = .ok ⟨[[part]]⟩ →
      part.combinator = .descendant →
      tree.matchesText handle text = tree.matchesText handle (text ++ "," ++ text) := by
  have formed := reachable.wellFormed
  have identified := reachable.identified
  refine ⟨fun part => ⟨fun known => ?_, ?_⟩, fun text part parsed below => ?_⟩
  · simp only [matchesSelector, checkTypes_singleton known, Selector.simplePart?]
  · obtain ⟨-, finds⟩ := formed.evaluate_document identified present
      (show ∀ other ∈ [{ part with combinator := .descendant }], other.combinator = .descendant by simp)
    rw [← mem_handlesOf]
    refine Iff.trans ?_ finds.symm
    simp [passesPart_combinator]
  · have parsedTwice : Selector.parse (text ++ "," ++ text) = .ok ⟨[[part], [part]]⟩ := by
      rw [Selector.parse_eq_ok] at parsed ⊢
      exact Selector.read_comma parsed parsed
    rw [matchesText_of_parse parsed, matchesText_of_parse parsedTwice,
      formed.matchesSelector_twice identified present below]

/-- A block that is the second item of a list is selected by its place and type, and by its fields. -/
theorem direct_test_agrees_movedBlock :
    movedBlock.Reachable ∧ movedBlock.hasHandle (.node ⟨2⟩) = true ∧
    .ofHandle (.node ⟨2⟩) ∈ movedBlock.evaluate (.document (movedBlock.root (.node ⟨2⟩)))
      ⟨[[⟨.descendant, some "1", some "Block", [], [], []⟩]]⟩ ∧
    movedBlock.matchesSelector (.node ⟨2⟩) ⟨[[⟨.parent, some "1", some "Block", [], [], []⟩]]⟩ =
      .ok true ∧
    movedBlock.matchesText (.node ⟨2⟩) "[next]" = movedBlock.matchesText (.node ⟨2⟩) "[next],[next]" := by
  have reachable : movedBlock.Reachable := ⟨1, _, rfl⟩
  have present : movedBlock.hasHandle (.node ⟨2⟩) = true := by decide +kernel
  have passes : movedBlock.passesPart (.ofHandle (.node ⟨2⟩)) none
      ⟨.parent, some "1", some "Block", [], [], []⟩ = true := by decide +kernel
  have known (name : String) (named : some "Block" = some name) : blocks.knows name = true := by
    cases named
    decide +kernel
  have parsed : Selector.parse "[next]" =
      .ok ⟨[[⟨.descendant, none, none, [], [⟨"next", none⟩], []⟩]]⟩ :=
    Selector.parse_eq_ok.mpr (Selector.read_of_attribute rfl rfl)
  obtain ⟨direct, twice⟩ := direct_test_agrees reachable present
  obtain ⟨tested, finds⟩ := direct ⟨.parent, some "1", some "Block", [], [], []⟩
  exact ⟨reachable, present, finds.mp passes, (tested known).trans (congrArg Except.ok passes),
    twice "[next]" _ parsed rfl⟩

end Arbor.Tree
