import Arbor.Proofs.Alike
import Arbor.Proofs.Union

/-! # Searching depends on structure only

A copy of a whole tree has identities of its own and everything else in the same place. So candidates and
tests are the same there, wherever a selector looks, and so is what it finds. Below nodes or lists of trees
that are merely alike, the same holds of selectors that look down. -/

namespace Arbor

/-- Every node and list keeps its number. -/
def Renaming.same : Renaming := ⟨id, id⟩

@[simp] theorem Renaming.handle_same (handle : Handle) : Renaming.same.handle handle = handle := by
  cases handle <;> rfl

@[simp] theorem Renaming.value_same : Renaming.same.value = id := by
  funext value
  cases value <;> rfl

namespace Tree

variable {catalogue : Catalogue}

section Copy

variable (tree : Tree catalogue) (n : NodeId)

@[simp] theorem size_copy : tree.copy.size = tree.size := by
  simp [size, copy]

@[simp] theorem metadata_copy : tree.copy.metadata n = tree.metadata n := by
  rw [metadata, node?_copy, metadata]
  cases tree.node? n <;> rfl

@[simp] theorem typeName_copy : tree.copy.typeName n = tree.typeName n := by
  rw [typeName, typeOf_copy, typeName]

@[simp] theorem instanceOf_copy : tree.copy.instanceOf n = tree.instanceOf n := by
  funext name
  rw [instanceOf, typeOf_copy, instanceOf]

@[simp] theorem readings_copy : tree.copy.readings n = tree.readings n := by
  rw [readings, fields_copy, slots_copy, readings]

@[simp] theorem get_copy (name : String) : tree.copy.get n name = tree.get n name := by
  rw [Tree.get, readings_copy, typeName_copy, Tree.get]

@[simp] theorem children_copy (handle : Handle) : tree.copy.children handle = tree.children handle := by
  cases handle <;> simp [children]

@[simp] theorem ancestors_copy (handle : Handle) :
    tree.copy.ancestors handle = tree.ancestors handle := by
  have upTo (bound : Nat) (handle : Handle) :
      tree.copy.ancestorsUpTo bound handle = tree.ancestorsUpTo bound handle := by
    induction bound generalizing handle with
    | zero => rfl
    | succ bound ih => simp only [ancestorsUpTo, parent?_copy, ih]
  rw [ancestors, size_copy, upTo, ancestors]

@[simp] theorem keyOf?_copy (handle : Handle) : tree.copy.keyOf? handle = tree.keyOf? handle := by
  have indexOf (parent : Handle) (value : Value) :
      tree.copy.indexOf? parent value = tree.indexOf? parent value := by
    simp only [indexOf?, fieldOf?, position?, readings_copy, items_copy]
  cases handle <;> simp [keyOf?, indexOf]

private theorem expand_copy (context : Context) (combinator : Combinator) :
    tree.copy.expand context combinator = tree.expand context combinator := by
  have atBoundary (boundary : List String) (value : Value) :
      tree.copy.atBoundary boundary value = tree.atBoundary boundary value := by
    cases value <;> simp [Tree.atBoundary]
  have belowUpTo (boundary : List String) (bound : Nat) (handle : Handle) :
      tree.copy.belowUpTo boundary bound handle = tree.belowUpTo boundary bound handle := by
    induction bound generalizing handle with
    | zero => rfl
    | succ bound ih =>
      have sameBelow : tree.copy.belowUpTo boundary bound = tree.belowUpTo boundary bound := funext ih
      simp only [Tree.belowUpTo, children_copy, atBoundary, sameBelow]
  have descend (boundary : List String) (handle : Handle) :
      tree.copy.descend boundary handle = tree.descend boundary handle := by
    rw [descend_eq, descend_eq, size_copy, belowUpTo]
  have ascend (handle : Handle) : tree.copy.ascend handle = tree.ascend handle := by
    simp only [Tree.ascend, ancestors_copy, keyOf?_copy]
  cases context <;> cases combinator <;>
    simp [expand, expandItem, expandDocument, descend, ascend, atBoundary]

@[simp] theorem parentNode?_copy (handle : Handle) :
    tree.copy.parentNode? handle = tree.parentNode? handle := by
  rw [parentNode?, ancestors_copy, parentNode?]

@[simp] theorem identifierParent?_copy (name : Option String) :
    tree.copy.identifierParent? n name = tree.identifierParent? n name := by
  simp only [identifierParent?, typeName_copy, get_copy, parentNode?_copy]

@[simp] theorem holds_copy (field : String) (child : NodeId) :
    tree.copy.holds n field child = tree.holds n field child := by
  simp only [holds, get_copy, items_copy]

@[simp] theorem inObjectPattern_copy : tree.copy.inObjectPattern n = tree.inObjectPattern n := by
  simp only [inObjectPattern, parent?_copy, parentNode?_copy, typeName_copy]

@[simp] theorem isTrue_copy (field : String) : tree.copy.isTrue n field = tree.isTrue n field := by
  rw [isTrue, get_copy, isTrue]

@[simp] theorem declaringFields_copy : tree.copy.declaringFields n = tree.declaringFields n := by
  simp only [declaringFields, typeName_copy, instanceOf_copy]

@[simp] theorem isScope_copy : tree.copy.isScope n = tree.isScope n := by
  rw [isScope, typeName_copy, instanceOf_copy, isScope]

private theorem passesPseudo_copy (test : Pseudo) :
    tree.copy.passesPseudo n test = tree.passesPseudo n test := by
  have isReference : tree.copy.isReference n test.argument = tree.isReference n test.argument := by
    simp only [Tree.isReference, identifierParent?_copy, typeName_copy, isTrue_copy, holds_copy,
      inObjectPattern_copy]
  have isDeclaration : tree.copy.isDeclaration n test.argument = tree.isDeclaration n test.argument := by
    simp only [Tree.isDeclaration, identifierParent?_copy, typeName_copy, holds_copy,
      inObjectPattern_copy, declaringFields_copy]
  rw [passesPseudo, isReference, isDeclaration, isScope_copy, passesPseudo]

private theorem passesPart_copy (value : Value) (key : Option Key) (part : Part) :
    tree.copy.passesPart value key part = tree.passesPart value key part := by
  have passesTests (n : NodeId) : tree.copy.passesTests n part = tree.passesTests n part := by
    have pseudos : tree.copy.passesPseudo n = tree.passesPseudo n := funext (passesPseudo_copy tree n)
    have attributes : tree.copy.passesAttribute n = tree.passesAttribute n := by
      funext test
      simp only [passesAttribute, attributeScalar?, get_copy, metadata_copy, fields_copy]
    have classes : tree.copy.hasClass n = tree.hasClass n := by
      funext name
      simp only [hasClass, get_copy, metadata_copy]
    rw [Tree.passesTests, typeOf_copy, classes, attributes, pseudos, Tree.passesTests]
  cases value <;> simp only [passesPart, passesTag, keyOf?_copy, passesTests]

@[simp] theorem hasHandle_copy (handle : Handle) :
    tree.copy.hasHandle handle = tree.hasHandle handle := by
  cases handle <;> simp [hasHandle]

end Copy

private theorem allAccepted_congr {α : Type} {test other : α → Except QueryError Bool}
    {items : List α} (same : ∀ item ∈ items, other item = test item) :
    allAccepted other items = allAccepted test items := by
  induction items with
  | nil => rfl
  | cons item rest ih =>
    obtain ⟨here, later⟩ := List.forall_mem_cons.mp same
    rw [allAccepted, allAccepted, here, ih later]

section Search

variable {tree : Tree catalogue} (formed : tree.WellFormed) (identified : tree.Identified)

include formed in
private theorem sameCandidates_copy {context : Context}
    (present : ∀ root, context = .document root → tree.hasHandle root = true) (part : Part) :
    tree.SameCandidates tree.copy .same (tree.hasHandle · = true) part context context where
  expand := by
    have unchanged : Renaming.same.candidate = id := by
      funext candidate
      rw [Renaming.candidate, Renaming.value_same]
      rfl
    rw [expand_copy, unchanged, List.map_id]
  covered value key found handle isHandle := by
    obtain rfl := handle?_eq_some.mp isHandle
    cases context with
    | item outer => exact formed.hasHandle_of_candidate (formed.mem_expandItem_iff.mp found)
    | document root => exact formed.hasHandle_of_expandDocument (present root rfl) found
  passes value key found := by
    rw [Renaming.value_same, id, passesPart_copy]

include identified in
private theorem uid_copy_iff {a b : Handle} (aPresent : tree.hasHandle a = true)
    (bPresent : tree.hasHandle b = true) : tree.copy.uid a = tree.copy.uid b ↔ tree.uid a = tree.uid b := by
  rw [← hasHandle_copy] at aPresent bPresent
  constructor
  · intro same
    rw [(identified_copy tree).distinct aPresent bPresent same]
  · intro same
    rw [hasHandle_copy] at aPresent bPresent
    rw [identified.distinct aPresent bPresent same]

include formed identified

/-- A tree simulates its copy, whatever is looked for. -/
theorem simulates_copy : tree.Simulates tree.copy .same (tree.hasHandle · = true) fun _ => True where
  injective _ _ same := by simpa using same
  uid_iff aPresent bPresent := by
    rw [Renaming.handle_same, Renaming.handle_same]
    exact uid_copy_iff identified aPresent bPresent
  items _ := by
    rw [items_copy, show Renaming.same.node = id from rfl, Option.map_id, List.map_id]
    rfl
  item_within _ isItem := formed.owned.item_present isItem
  candidates _ _ := by
    rw [Renaming.handle_same]
    exact sameCandidates_copy formed (fun _ isDocument => Context.noConfusion isDocument) _

theorem search_copy {handle : Handle} (present : tree.hasHandle handle = true) (text : String) :
    tree.copy.search handle text = tree.search handle text := by
  rw [search, search]
  cases Selector.parse text with
  | error => rfl
  | ok selector =>
    have same := (simulates_copy formed identified).searchSelector present
      (fun chain _ part _ => trivial : ∀ chain ∈ selector.chains, ∀ part ∈ chain, True)
    rw [Renaming.handle_same, Renaming.value_same] at same
    show tree.copy.searchSelector handle selector = tree.searchSelector handle selector
    rw [same]
    cases tree.searchSelector handle selector with
    | error => rfl
    | ok found => exact congrArg Except.ok (List.map_id found)

private theorem matchesSelector_copy {handle : Handle} (present : tree.hasHandle handle = true)
    (selector : Selector) :
    tree.copy.matchesSelector handle selector = tree.matchesSelector handle selector := by
  have simulates := simulates_copy formed identified
  have sameRoot : tree.copy.root handle = tree.root handle := by
    rw [root, ancestors_copy, root]
  have isDocument (root : Handle) (same : Context.document (tree.root handle) = .document root) :
      tree.hasHandle root = true := by
    cases same
    exact formed.hasHandle_root present
  have follows := simulates.follows_document fun part _ => sameCandidates_copy formed isDocument part
  obtain ⟨found, covers⟩ := simulates.evaluate follows
    (fun chain _ part _ => trivial : ∀ chain ∈ selector.chains, ∀ part ∈ chain, True)
  rw [Renaming.value_same, List.map_id] at found
  have sameFound : ((tree.evaluate (.document (tree.root handle)) selector).any fun value =>
      tree.copy.identity? value == some (tree.copy.uid handle)) =
      (tree.evaluate (.document (tree.root handle)) selector).any fun value =>
        tree.identity? value == some (tree.uid handle) := by
    rw [Bool.eq_iff_iff, List.any_eq_true, List.any_eq_true]
    apply exists_congr
    intro value
    rw [and_congr_right_iff]
    intro member
    cases isHandle : value.handle? with
    | none => simp [identity?, isHandle]
    | some inner =>
      have inTree := covers inner (mem_handlesOf.mpr (handle?_eq_some.mp isHandle ▸ member))
      simp only [identity?, isHandle, Option.map_some, beq_iff_eq, Option.some.injEq]
      exact uid_copy_iff identified inTree present
  have sameTypes : tree.copy.checkTypes selector = tree.checkTypes selector := rfl
  simp only [matchesSelector, sameTypes, sameRoot, found, sameFound, passesPart_copy]

theorem matchesText_copy {handle : Handle} (present : tree.hasHandle handle = true) (text : String) :
    tree.copy.matchesText handle text = tree.matchesText handle text := by
  simp only [matchesText, matchesSelector_copy formed identified present]

private theorem accepts_copy {handle : Handle} (present : tree.hasHandle handle = true)
    (text : Option String) : tree.copy.accepts text handle = tree.accepts text handle := by
  simp only [accepts, matchesText_copy formed identified present]

theorem parents_copy (handle : Handle) (text : Option String) :
    tree.copy.parents handle text = tree.parents handle text := by
  rw [parents, parents, ancestors_copy]
  apply allAccepted_congr
  intro outer above
  exact accepts_copy formed identified (formed.hasHandle_ancestor above) text

theorem scopes_copy (handle : Handle) (text : Option String) :
    tree.copy.scopes handle text = tree.scopes handle text := by
  have sameScopes : tree.copy.enclosingScopes handle = tree.enclosingScopes handle := by
    rw [enclosingScopes, ancestors_copy, funext (isScope_copy tree), enclosingScopes]
  rw [scopes, scopes, sameScopes]
  apply allAccepted_congr
  intro n isScope
  obtain ⟨outer, above, isNode⟩ := List.mem_filterMap.mp (List.mem_of_mem_filter isScope)
  cases outer with
  | node m =>
    cases isNode
    exact accepts_copy formed identified (formed.hasHandle_ancestor above) text
  | list l => contradiction

end Search

/-- Looking down from nodes or lists that are alike, a search fails in both trees or finds the same in
both, one by one. In a copy of a tree, whole selectors find the same, and the same is selected. -/
theorem search_depends_on_structure {first second : Tree catalogue} (reachable : first.Reachable)
    (otherReachable : second.Reachable) {start : Handle} (present : first.hasHandle start = true) :
    (∀ rename : Renaming, second.hasHandle (rename.handle start) = true →
      first.Alike second rename start → ∀ text,
        (∀ selector, Selector.parse text = .ok selector → selector.looksDown = true) →
          second.search (rename.handle start) text =
            (first.search start text).map (List.map rename.value)) ∧
    (∀ text, first.copy.search start text = first.search start text ∧
      first.copy.matchesText start text = first.matchesText start text) ∧
    ∀ text, first.copy.parents start text = first.parents start text ∧
      first.copy.scopes start text = first.scopes start text := by
  have formed := reachable.wellFormed
  have identified := reachable.identified
  refine ⟨fun rename otherPresent alike text looksDown => ?_, fun text => ⟨?_, ?_⟩,
    fun text => ⟨?_, ?_⟩⟩
  · rw [search, search]
    cases read : Selector.parse text with
    | error => rfl
    | ok selector =>
      have parts := looksDown selector read
      simp only [Selector.looksDown, List.all_eq_true] at parts
      exact (alike.simulates formed otherReachable.wellFormed identified otherReachable.identified
        present otherPresent).searchSelector .refl parts
  · exact search_copy formed identified present text
  · exact matchesText_copy formed identified present text
  · exact parents_copy formed identified start text
  · exact scopes_copy formed identified start text

/-- A note whose parts are another note, which has a title, and a hole. -/
def nestedNotes : Tree notes :=
  (empty notes 1).run [.createNode "Note", .createNode "Note", .push ⟨0⟩ (.node ⟨1⟩), .push ⟨0⟩ .null,
    .setMetadata ⟨1⟩ [("title", .string "inner")]]

/-- The same notes, made in the other order and under other identities. -/
def renumberedNotes : Tree notes :=
  (empty notes 7).run [.createNode "Note", .createNode "Note", .push ⟨1⟩ (.node ⟨0⟩), .push ⟨1⟩ .null,
    .setMetadata ⟨0⟩ [("title", .string "inner")]]

/-- The first two nodes and the first two lists change places. -/
def exchange : Renaming := ⟨fun n => ⟨1 - n.index⟩, fun l => ⟨1 - l.index⟩⟩

private theorem alike_renumberedNotes : nestedNotes.Alike renumberedNotes exchange (.node ⟨0⟩) := by
  have reachable : nestedNotes.Reachable := ⟨1, _, rfl⟩
  have present : nestedNotes.hasHandle (.node ⟨0⟩) = true := by decide +kernel
  have sizes : nestedNotes.nodes.size = 2 ∧ nestedNotes.lists.size = 2 := by decide +kernel
  have inTree {handle : Handle} (inside : nestedNotes.Inside (.node ⟨0⟩) handle) :=
    reachable.wellFormed.owned.hasHandle_of_inside present inside
  have nodeCases {n : NodeId} (inside : nestedNotes.Inside (.node ⟨0⟩) (.node n)) :
      n = ⟨0⟩ ∨ n = ⟨1⟩ := by
    obtain ⟨n⟩ := n
    have bound : n < 2 := sizes.1 ▸ of_decide_eq_true (inTree inside)
    rw [NodeId.mk.injEq, NodeId.mk.injEq]
    omega
  have listCases {l : ListId} (inside : nestedNotes.Inside (.node ⟨0⟩) (.list l)) :
      l = ⟨0⟩ ∨ l = ⟨1⟩ := by
    obtain ⟨l⟩ := l
    have bound : l < 2 := sizes.2 ▸ of_decide_eq_true (inTree inside)
    rw [ListId.mk.injEq, ListId.mk.injEq]
    omega
  constructor
  · rintro (a | a) aInside (b | b) bInside same
    · rcases nodeCases aInside with rfl | rfl <;> rcases nodeCases bInside with rfl | rfl
      all_goals first | rfl | contradiction
    · contradiction
    · contradiction
    · rcases listCases aInside with rfl | rfl <;> rcases listCases bInside with rfl | rfl
      all_goals first | rfl | contradiction
  · intro n inside
    rcases nodeCases inside with rfl | rfl <;> cbv
  · intro n inside
    rcases nodeCases inside with rfl | rfl <;> cbv
  · intro n inside name
    have same : renumberedNotes.metadata (exchange.node n) = nestedNotes.metadata n := by
      rcases nodeCases inside with rfl | rfl <;> cbv
    rw [same]
  · intro l inside
    rcases listCases inside with rfl | rfl <;> cbv

theorem search_depends_on_structure_renumberedNotes :
    nestedNotes.Reachable ∧ renumberedNotes.Reachable ∧
      nestedNotes.hasHandle (.node ⟨0⟩) = true ∧ renumberedNotes.hasHandle (.node ⟨1⟩) = true ∧
      nestedNotes.Alike renumberedNotes exchange (.node ⟨0⟩) ∧
      renumberedNotes.search (.node ⟨1⟩) "[title$=er]" = .ok [.node ⟨0⟩] ∧
      nestedNotes.copy.search (.node ⟨0⟩) "[title$=er]" = .ok [.node ⟨1⟩] := by
  have reachable : nestedNotes.Reachable := ⟨1, _, rfl⟩
  have otherReachable : renumberedNotes.Reachable := ⟨7, _, rfl⟩
  have present : nestedNotes.hasHandle (.node ⟨0⟩) = true := by decide +kernel
  have otherPresent : renumberedNotes.hasHandle (.node ⟨1⟩) = true := by decide +kernel
  have parsed : Selector.parse "[title$=er]" = .ok
      ⟨[[⟨.descendant, none, none, [], [⟨"title", some (.endsWith, "er")⟩], []⟩]]⟩ :=
    Selector.parse_eq_ok.mpr (Selector.read_of_attribute rfl rfl)
  have looksDown (selector : Selector) (read : Selector.parse "[title$=er]" = .ok selector) :
      selector.looksDown = true := by
    rw [parsed] at read
    cases read
    rfl
  have found : nestedNotes.search (.node ⟨0⟩) "[title$=er]" = .ok [.node ⟨1⟩] := by
    rw [search_of_parse parsed (by decide +kernel)]
    cbv
  obtain ⟨likewise, inCopy, -⟩ := search_depends_on_structure reachable otherReachable present
  refine ⟨reachable, otherReachable, present, otherPresent, alike_renumberedNotes, ?_, ?_⟩
  · have renamed := likewise exchange otherPresent alike_renumberedNotes _ looksDown
    rw [found] at renamed
    exact renamed
  · rw [(inCopy _).1, found]

end Tree
end Arbor
