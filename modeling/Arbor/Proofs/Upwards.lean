import Arbor.Proofs.Flattening
import Arbor.Proofs.Joining

/-! # Walks upwards agree

The ancestors of a node or list are asked for in five ways: the nearest or all of them that an expression
selects, the nearest or all of the scopes among them, and by a search along the ancestor combinator. An
expression that is no selector, or names an unknown type, is refused wherever it is tested, so a walk that
stops early fails exactly if the one that does not fails. A search tests each ancestor under the key that a
direct test looks up, and as ancestors are different it drops none of them; nor does it replace any, since
no list passes a part that tests more than the key. -/

namespace Arbor

namespace Tree

variable {catalogue : Catalogue}

section Accepting

variable {α β : Type} {test : α → Except QueryError Bool}

/-- Whether a test answers does not depend on what is tested. -/
inductive Uniform (test : α → Except QueryError Bool) : Prop where
  | answers (verdict : α → Bool) (same : ∀ item, test item = .ok (verdict item))
  | refuses (error : QueryError) (same : ∀ item, test item = .error error)

theorem Uniform.comp (uniform : Uniform test) (inner : β → α) : Uniform fun item => test (inner item) := by
  cases uniform with
  | answers verdict same => exact .answers (fun item => verdict (inner item)) fun item => same _
  | refuses error same => exact .refuses error fun item => same _

private theorem allAccepted_of_answers {verdict : α → Bool} {items : List α}
    (same : ∀ item ∈ items, test item = .ok (verdict item)) :
    allAccepted test items = .ok (items.filter verdict) := by
  induction items with
  | nil => rfl
  | cons item rest ih =>
    obtain ⟨here, later⟩ := List.forall_mem_cons.mp same
    simp only [allAccepted, here, ih later, List.filter_cons]

private theorem firstAccepted_of_answers {verdict : α → Bool} {items : List α}
    (same : ∀ item ∈ items, test item = .ok (verdict item)) :
    firstAccepted test items = .ok (items.find? verdict) := by
  induction items with
  | nil => rfl
  | cons item rest ih =>
    obtain ⟨here, later⟩ := List.forall_mem_cons.mp same
    rw [firstAccepted, here, List.find?_cons]
    cases verdict item with
    | true => rfl
    | false => exact ih later

/-- The first item that is accepted is the first of all that are, also in the error where the test is
refused. -/
theorem Uniform.firstAccepted_eq (uniform : Uniform test) (items : List α) :
    firstAccepted test items = (allAccepted test items).map List.head? := by
  cases uniform with
  | answers verdict same =>
    rw [firstAccepted_of_answers fun item _ => same item, allAccepted_of_answers fun item _ => same item]
    exact congrArg Except.ok (List.head?_filter ..).symm
  | refuses error same =>
    cases items with
    | nil => rfl
    | cons item rest =>
      rw [firstAccepted, allAccepted, same]
      rfl

end Accepting

section Walks

variable {tree : Tree catalogue}

/-- An expression is refused for itself, not for what it is tested on. -/
theorem uniform_accepts (tree : Tree catalogue) (text : Option String) : Uniform (tree.accepts text) := by
  cases text with
  | none => exact .answers (fun _ => true) fun _ => rfl
  | some text =>
    cases parsed : Selector.parse text with
    | error error => exact .refuses error fun handle => by rw [accepts, matchesText, parsed]
    | ok selector =>
      have tested (handle : Handle) :
          tree.accepts (some text) handle = tree.matchesSelector handle selector :=
        matchesText_of_parse parsed
      cases checked : tree.checkTypes selector with
      | error error =>
        exact .refuses error fun handle => by rw [tested, matchesSelector, checked]
      | ok _ =>
        cases single : selector.simplePart? with
        | some part =>
          refine .answers (fun handle => tree.passesPart (.ofHandle handle) none part) fun handle => ?_
          rw [tested, matchesSelector, checked, single]
        | none =>
          refine .answers (fun handle => (tree.evaluate (.document (tree.root handle)) selector).any
            fun value => tree.identity? value == some (tree.uid handle)) fun handle => ?_
          rw [tested, matchesSelector, checked, single]

/-- Scopes that are accepted are the accepted ancestors that are scopes. -/
theorem filter_scopes (scope : NodeId → Bool) (verdict : Handle → Bool) (above : List Handle) :
    ((above.filterMap Handle.node?).filter scope).filter (fun id => verdict (.node id)) =
      ((above.filter verdict).filterMap Handle.node?).filter scope := by
  induction above with
  | nil => rfl
  | cons outer rest ih =>
    cases outer with
    | list l =>
      rw [List.filterMap_cons_none rfl, ih, List.filter_cons]
      split <;> rfl
    | node id =>
      cases accepted : verdict (.node id) <;> cases isScope : scope id <;>
        simpa [Handle.node?, accepted, isScope] using ih

private theorem scopes_of_parents {handle : Handle} {text : Option String} {found : List Handle}
    (succeeds : tree.parents handle text = .ok found) :
    tree.scopes handle text = .ok ((found.filterMap Handle.node?).filter tree.isScope) := by
  rw [parents] at succeeds
  rw [scopes, enclosingScopes]
  cases tree.uniform_accepts text with
  | answers verdict same =>
    rw [allAccepted_of_answers fun item _ => same item, Except.ok.injEq] at succeeds
    rw [allAccepted_of_answers fun item _ => same (.node item), filter_scopes, succeeds]
  | refuses error same =>
    -- The expression was tested on no ancestor, so there is none.
    cases above : tree.ancestors handle with
    | nil =>
      rw [above] at succeeds
      cases succeeds
      rfl
    | cons outer rest =>
      rw [above, allAccepted, same] at succeeds
      contradiction

end Walks

section Steps

variable {tree : Tree catalogue} (formed : tree.WellFormed) (handle : Handle) (text : Option String)
include formed

/-- The ancestor combinator takes one ancestor after the other. -/
theorem WellFormed.ascend_step : tree.ascend handle =
    match tree.parent? handle with
    | none => []
    | some outer => (.ofHandle outer, tree.keyOf? outer) :: tree.ascend outer := by
  cases held : tree.parent? handle with
  | none => rw [ascend, ancestors_of_unheld held, List.map_nil]
  | some outer =>
    rw [ascend, formed.acyclic.ancestors_of_held formed.owned held, List.map_cons]
    rfl

/-- The walk to the nearest ancestor that is selected tests the parent and goes on from there. -/
theorem WellFormed.closestParent_step : tree.closestParent handle text =
    match tree.parent? handle with
    | none => .ok none
    | some outer =>
      match tree.accepts text outer with
      | .error error => .error error
      | .ok true => .ok (some outer)
      | .ok false => tree.closestParent outer text := by
  cases held : tree.parent? handle with
  | none => rw [closestParent, ancestors_of_unheld held, firstAccepted]
  | some outer =>
    rw [closestParent, formed.acyclic.ancestors_of_held formed.owned held, firstAccepted]
    rfl

/-- The walk to all ancestors that are selected tests the parent and goes on from there. -/
theorem WellFormed.parents_step : tree.parents handle text =
    match tree.parent? handle with
    | none => .ok []
    | some outer =>
      match tree.accepts text outer with
      | .error error => .error error
      | .ok accepted =>
        (tree.parents outer text).map fun others => if accepted then outer :: others else others := by
  cases held : tree.parent? handle with
  | none => rw [parents, ancestors_of_unheld held, allAccepted]
  | some outer =>
    rw [parents, formed.acyclic.ancestors_of_held formed.owned held, allAccepted, ← parents]
    dsimp only
    cases tree.accepts text outer with
    | error error => rfl
    | ok accepted => cases tree.parents outer text <;> rfl

/-- The scopes around something are the parent, if it is one, and those around the parent. -/
theorem WellFormed.enclosingScopes_step : tree.enclosingScopes handle =
    match tree.parent? handle with
    | none => []
    | some (.list l) => tree.enclosingScopes (.list l)
    | some (.node n) =>
      if tree.isScope n then n :: tree.enclosingScopes (.node n) else tree.enclosingScopes (.node n) := by
  cases held : tree.parent? handle with
  | none => rw [enclosingScopes, ancestors_of_unheld held, List.filterMap_nil, List.filter_nil]
  | some outer =>
    rw [enclosingScopes, formed.acyclic.ancestors_of_held formed.owned held]
    cases outer with
    | list l => rfl
    | node n => exact List.filter_cons

/-- The scope that an expression selects at an ancestor. Only what is a scope is tested. -/
def scopeAt (tree : Tree catalogue) (text : Option String) : Handle → Except QueryError (Option NodeId)
  | .list _ => .ok none
  | .node n =>
    if tree.isScope n then
      (tree.accepts text (.node n)).map fun accepted => if accepted then some n else none
    else .ok none

/-- The walk to the nearest scope that is selected looks at the parent and goes on from there. -/
theorem WellFormed.closestScope_step : tree.closestScope handle text =
    match tree.parent? handle with
    | none => .ok none
    | some outer =>
      match tree.scopeAt text outer with
      | .error error => .error error
      | .ok (some n) => .ok (some n)
      | .ok none => tree.closestScope outer text := by
  rw [closestScope, formed.enclosingScopes_step]
  cases tree.parent? handle with
  | none => rfl
  | some outer =>
    cases outer with
    | list l => rfl
    | node n =>
      dsimp only [scopeAt]
      split
      · rw [firstAccepted]
        cases tree.accepts text (.node n) with
        | error error => rfl
        | ok accepted => cases accepted <;> rfl
      · rfl

/-- The walk to all scopes that are selected looks at the parent and goes on from there. -/
theorem WellFormed.scopes_step : tree.scopes handle text =
    match tree.parent? handle with
    | none => .ok []
    | some outer =>
      match tree.scopeAt text outer with
      | .error error => .error error
      | .ok found => (tree.scopes outer text).map (found.toList ++ ·) := by
  have others (outer : Handle) : tree.scopes outer text = (tree.scopes outer text).map ([] ++ ·) := by
    cases tree.scopes outer text <;> rfl
  rw [scopes, formed.enclosingScopes_step]
  cases tree.parent? handle with
  | none => rfl
  | some outer =>
    cases outer with
    | list l => exact others (.list l)
    | node n =>
      dsimp only [scopeAt]
      split
      · rw [allAccepted, ← scopes]
        cases tree.accepts text (.node n) with
        | error error => rfl
        | ok accepted => cases accepted <;> cases tree.scopes (.node n) text <;> rfl
      · exact others (.node n)

end Steps

section Search

variable {tree : Tree catalogue}

private theorem foldl_addFound_of_nodup (identified : tree.Identified) {values : List Value}
    (inTree : tree.InTree values) (nodup : (handlesOf values).Nodup) {found : Found}
    (exact : tree.Exact found) (apart : ∀ handle ∈ handlesOf values, handle ∉ handlesOf found.values) :
    (values.foldl tree.addFound found).values = values.reverse ++ found.values := by
  induction values generalizing found with
  | nil => rfl
  | cons value rest ih =>
    have restInTree : tree.InTree rest := fun handle member =>
      inTree handle (mem_handlesOf_cons.mpr (.inr member))
    have added := exact.add identified fun handle isHandle =>
      inTree handle (mem_handlesOf_cons.mpr (.inl isHandle))
    have first : (tree.addFound found value).values = value :: found.values := by
      cases isHandle : value.handle? with
      | none => rw [addFound_of_scalar found isHandle]
      | some handle =>
        have unseen : tree.uid handle ∉ found.seen := by
          rw [exact.seen, List.mem_map]
          rintro ⟨other, isFound, same⟩
          have here : handle ∈ handlesOf (value :: rest) := mem_handlesOf_cons.mpr (.inl isHandle)
          have sameHandle := identified.distinct (exact.inTree other isFound) (inTree handle here) same
          exact apart handle here (sameHandle ▸ isFound)
        rw [addFound_of_handle found isHandle, if_neg unseen]
    have laterNodup : (handlesOf rest).Nodup := by
      cases isHandle : value.handle? with
      | none => rwa [handlesOf, List.filterMap_cons_none isHandle] at nodup
      | some handle =>
        rw [handlesOf, List.filterMap_cons_some isHandle] at nodup
        exact nodup.of_cons
    have laterApart : ∀ handle ∈ handlesOf rest,
        handle ∉ handlesOf (tree.addFound found value).values := by
      intro handle later isFound
      rcases (added.2 handle).mp isFound with before | isHandle
      · exact apart handle (mem_handlesOf_cons.mpr (.inr later)) before
      · rw [handlesOf, List.filterMap_cons_some isHandle] at nodup
        exact (List.nodup_cons.mp nodup).1 later
    rw [List.foldl_cons, ih restInTree laterNodup added.1 laterApart, first, List.reverse_cons,
      List.append_assoc]
    rfl

/-- Where no node or list occurs twice there is nothing to drop. -/
theorem distinct_of_nodup (identified : tree.Identified) {values : List Value}
    (inTree : tree.InTree values) (nodup : (handlesOf values).Nodup) : tree.distinct values = values := by
  have start : tree.Exact ⟨[], []⟩ := ⟨rfl, List.nodup_nil, inTree_nil⟩
  rw [distinct, foldl_addFound_of_nodup identified inTree nodup start fun _ _ => List.not_mem_nil,
    List.append_nil, List.reverse_reverse]

/-- Where no list is found there is nothing to replace. -/
theorem flattenInto_of_no_list {before after : List Value} (noList : ∀ l, .list l ∉ before) :
    tree.flattenInto before after = before.reverse ++ after := by
  induction before generalizing after with
  | nil => rfl
  | cons value before ih =>
    have earlier (l : ListId) (member : .list l ∈ before) : False :=
      noList l (List.mem_cons_of_mem _ member)
    cases value with
    | list l => exact absurd List.mem_cons_self (noList l)
    | node n | scalar s =>
      rw [List.reverse_cons, List.append_assoc]
      exact ih earlier

private theorem handlesOf_map_ofHandle (handles : List Handle) :
    handlesOf (handles.map .ofHandle) = handles := by
  rw [handlesOf, List.filterMap_map]
  simp

/-- The ancestors that pass a part when tested directly, innermost first. -/
def passingAbove (tree : Tree catalogue) (handle : Handle) (part : Part) : List Handle :=
  (tree.ancestors handle).filter fun outer => tree.passesPart (.ofHandle outer) none part

/-- What a part finds above a node or list. -/
theorem WellFormed.evaluate_ancestor (formed : tree.WellFormed) (identified : tree.Identified)
    (handle : Handle) {part : Part} (above : part.combinator = .ancestor) :
    tree.evaluate (.item handle) ⟨[[part]]⟩ = (tree.passingAbove handle part).map .ofHandle := by
  have passing : ((tree.expand (.item handle) part.combinator).filter fun entry =>
      tree.passesPart entry.1 entry.2 part).map (·.1) = (tree.passingAbove handle part).map .ofHandle := by
    rw [above, expand, expandItem, ascend, List.filter_map, List.map_map]
    simp only [Function.comp_def, passesPart_keyOf?, passingAbove]
  have inTree : tree.InTree ((tree.passingAbove handle part).map .ofHandle) := by
    intro outer member
    rw [handlesOf_map_ofHandle] at member
    exact formed.hasHandle_ancestor (List.mem_filter.mp member).1
  have nodup : (handlesOf ((tree.passingAbove handle part).map .ofHandle)).Nodup := by
    rw [handlesOf_map_ofHandle]
    exact (formed.acyclic.nodup_ancestorsUpTo _ handle).of_cons.filter _
  have found : tree.matchPart (.item handle) part = _ :=
    (congrArg tree.distinct passing).trans (distinct_of_nodup identified inTree nodup)
  rw [evaluate, evaluateChains, evaluateParts_singleton]
  simp only [remembered, List.lookup_nil, Option.getD_none, found, evaluateChains, List.append_nil,
    distinct_of_nodup identified inTree nodup]

/-- No list passes a part that tests more than the key. -/
theorem passesPart_list {part : Part} (tests : part.hasNodeTests = true) (l : ListId) (key : Option Key) :
    tree.passesPart (.list l) key part = false := by
  rw [passesPart, tests, Bool.not_true, Bool.and_false]

private theorem matchesSelector_singleton {part : Part}
    (known : ∀ name, part.id = some name → catalogue.knows name = true) (handle : Handle) :
    tree.matchesSelector handle ⟨[[part]]⟩ = .ok (tree.passesPart (.ofHandle handle) none part) := by
  simp only [matchesSelector, checkTypes_singleton known, Selector.simplePart?]

/-- A search along the ancestor combinator answers with the ancestors that the part selects. -/
theorem WellFormed.searchSelector_ancestor (formed : tree.WellFormed) (identified : tree.Identified)
    (handle : Handle) {part : Part} (tests : part.hasNodeTests = true)
    (known : ∀ name, part.id = some name → catalogue.knows name = true) :
    ∃ found, allAccepted (fun outer => tree.matchesSelector outer ⟨[[part]]⟩) (tree.ancestors handle) =
        .ok found ∧
      tree.searchSelector handle ⟨[[{ part with combinator := .ancestor }]]⟩ =
        .ok (found.map .ofHandle) := by
  have noList (l : ListId) : .list l ∉ (tree.passingAbove handle part).map Value.ofHandle := by
    intro member
    obtain ⟨outer, accepted, isList⟩ := List.mem_map.mp member
    rw [show outer = .list l from ofHandle_inj.mp isList, passingAbove, List.mem_filter] at accepted
    rw [show Value.ofHandle (.list l) = .list l from rfl, passesPart_list tests] at accepted
    exact Bool.false_ne_true accepted.2
  refine ⟨_, allAccepted_of_answers fun outer _ => matchesSelector_singleton known outer, ?_⟩
  have checked : tree.checkTypes ⟨[[{ part with combinator := .ancestor }]]⟩ = .ok () :=
    checkTypes_singleton known
  rw [searchSelector, checked]
  dsimp only
  have samePassing : tree.passingAbove handle { part with combinator := .ancestor } =
      tree.passingAbove handle part := by
    simp only [passingAbove, passesPart_combinator]
  rw [formed.evaluate_ancestor identified handle rfl, samePassing, flatten,
    flattenInto_of_no_list fun l member => noList l (List.mem_reverse.mp member), List.reverse_reverse,
    List.append_nil]
  rfl

end Search

/-- From anywhere in a tree, the nearest ancestor and the nearest scope that an expression selects are the
first of all that it selects, in their errors too; without an expression the ancestors come innermost first;
the scopes selected are the scopes among the ancestors selected; and for a part that tests more than the key
the search along the ancestor combinator answers with the ancestors that the part selects. -/
theorem upward_walks_agree {tree : Tree catalogue} (reachable : tree.Reachable) (handle : Handle) :
    (∀ text, tree.closestParent handle text = (tree.parents handle text).map List.head? ∧
      tree.closestScope handle text = (tree.scopes handle text).map List.head? ∧
      ∀ found, tree.parents handle text = .ok found →
        tree.scopes handle text = .ok ((found.filterMap Handle.node?).filter tree.isScope)) ∧
    (∃ above, tree.parents handle none = .ok above ∧ (handle :: above).Pairwise tree.Below ∧
      ∀ outer, outer ∈ above ↔ tree.Below handle outer) ∧
    ∀ (text : String) (part : Part), Selector.parse text = .ok ⟨[[part]]⟩ →
      part.combinator = .descendant → part.hasNodeTests = true →
      (∀ name, part.id = some name → catalogue.knows name = true) →
      ∃ found, tree.parents handle (some text) = .ok found ∧
        tree.search handle ("! " ++ text) = .ok (found.map .ofHandle) := by
  have formed := reachable.wellFormed
  refine ⟨fun text => ⟨?_, ?_, fun found => scopes_of_parents⟩, ⟨tree.ancestors handle, ?_, ?_, ?_⟩, ?_⟩
  · exact (tree.uniform_accepts text).firstAccepted_eq _
  · exact ((tree.uniform_accepts text).comp .node).firstAccepted_eq _
  · have all : tree.parents handle none = .ok ((tree.ancestors handle).filter fun _ => true) :=
      allAccepted_of_answers fun _ _ => rfl
    rw [all, List.filter_true]
  · exact pairwise_below_ancestorsUpTo tree.size handle
  · exact fun outer => formed.acyclic.mem_ancestors_iff formed.owned
  · intro text part parsed plain tests known
    obtain ⟨found, accepted, searched⟩ :=
      formed.searchSelector_ancestor reachable.identified handle tests known
    have above : Selector.parse ("! " ++ text) = .ok ⟨[[{ part with combinator := .ancestor }]]⟩ := by
      have symbol : "! " = Combinator.ancestor.symbol ++ " " := by decide
      rw [symbol, Selector.parse_eq_ok]
      exact Selector.read_lead (by decide) (Selector.parse_eq_ok.mp parsed) plain
    have tested : tree.accepts (some text) = fun outer => tree.matchesSelector outer ⟨[[part]]⟩ :=
      funext fun _ => matchesText_of_parse parsed
    refine ⟨found, ?_, ?_⟩
    · rw [parents, tested, accepted]
    · rw [search, above, ← searched]

end Tree

/-- A catalogue with programs and functions, which are scopes, and blocks, which are not. -/
def programs : Catalogue where
  name := "programs"
  types := #[⟨"Node", none, true, []⟩,
    ⟨"Program", some ⟨0⟩, false, [⟨"body", .list, [.type ⟨0⟩], "Node", .undefined⟩]⟩,
    ⟨"FunctionDeclaration", some ⟨0⟩, false, [⟨"id", .node, [.type ⟨0⟩], "Node", .undefined⟩,
      ⟨"body", .node, [.type ⟨0⟩], "Node", .undefined⟩]⟩,
    ⟨"BlockStatement", some ⟨0⟩, false, [⟨"body", .list, [.type ⟨0⟩], "Node", .undefined⟩]⟩]
  categories := #[⟨"Function", [⟨2⟩]⟩]

namespace Tree

/-- A program with a function whose block has another function in it. -/
def nestedFunctions : Tree programs :=
  (empty programs 1).run [.createNode "Program", .createNode "FunctionDeclaration",
    .createNode "FunctionDeclaration", .createNode "BlockStatement", .push ⟨0⟩ (.node ⟨1⟩),
    .set ⟨1⟩ "body" (.node ⟨3⟩), .push ⟨1⟩ (.node ⟨2⟩)]

/-- Above the inner function are the block with its list, which is no scope, the outer function, and the
program with its list; only the outer function has the field asked for. -/
theorem upward_walks_agree_nestedFunctions :
    nestedFunctions.Reachable ∧
    nestedFunctions.parents (.node ⟨2⟩) none =
      .ok [.list ⟨1⟩, .node ⟨3⟩, .node ⟨1⟩, .list ⟨0⟩, .node ⟨0⟩] ∧
    nestedFunctions.scopes (.node ⟨2⟩) none = .ok [⟨1⟩, ⟨0⟩] ∧
    nestedFunctions.closestScope (.node ⟨2⟩) none = .ok (some ⟨1⟩) ∧
    nestedFunctions.parents (.node ⟨2⟩) (some "[id]") = .ok [.node ⟨1⟩] ∧
    nestedFunctions.search (.node ⟨2⟩) "! [id]" = .ok [.node ⟨1⟩] := by
  have reachable : nestedFunctions.Reachable := ⟨1, _, rfl⟩
  let part : Part := ⟨.descendant, none, none, [], [⟨"id", none⟩], []⟩
  have parsed : Selector.parse "[id]" = .ok ⟨[[part]]⟩ :=
    Selector.parse_eq_ok.mpr (Selector.read_of_attribute rfl rfl)
  have above : nestedFunctions.parents (.node ⟨2⟩) none =
      .ok [.list ⟨1⟩, .node ⟨3⟩, .node ⟨1⟩, .list ⟨0⟩, .node ⟨0⟩] := by
    decide +kernel
  have selected : nestedFunctions.parents (.node ⟨2⟩) (some "[id]") = .ok [.node ⟨1⟩] := by
    have tested : nestedFunctions.accepts (some "[id]") =
        fun outer => nestedFunctions.matchesSelector outer ⟨[[part]]⟩ :=
      funext fun _ => matchesText_of_parse parsed
    rw [parents, tested]
    decide +kernel
  obtain ⟨walks, -, searches⟩ := upward_walks_agree reachable (.node ⟨2⟩)
  obtain ⟨-, nearest, scopes⟩ := walks none
  obtain ⟨found, again, searched⟩ := searches "[id]" part parsed rfl rfl (by simp [part])
  cases selected.symm.trans again
  have around : nestedFunctions.scopes (.node ⟨2⟩) none = .ok [⟨1⟩, ⟨0⟩] :=
    (scopes _ above).trans (by decide +kernel)
  rw [around] at nearest
  exact ⟨reachable, above, around, nearest, selected, searched⟩

end Tree
end Arbor
