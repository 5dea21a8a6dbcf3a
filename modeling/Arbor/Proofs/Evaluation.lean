import Arbor.Proofs.Candidates
import Arbor.Proofs.Identity
import Arbor.Proofs.SingleOwner
import Arbor.Query.Search

/-! # What a selector finds

A chain of parts leads from a node or list to another by one candidate that passes for each part.
Evaluation follows all of these at once, drops what it has found already, and remembers under the
identity of a context and the text of a part what the part found there. As long as parts of one text
find the same, what is remembered is what would be found anew, and evaluation finds exactly what the
chains lead to. -/

namespace Arbor.Tree

variable {catalogue : Catalogue}

/-- The candidates of a part from the first include the second, which passes the part. -/
def Step (tree : Tree catalogue) (part : Part) (handle found : Handle) : Prop :=
  ∃ key, tree.Candidate part.combinator handle key found ∧
    tree.passesPart (.ofHandle found) key part = true

/-- The parts of a chain lead from the first to the second, one step for each part. -/
inductive Leads (tree : Tree catalogue) : Handle → Chain → Handle → Prop where
  | last {part : Part} {handle found : Handle} (step : tree.Step part handle found) :
      Leads tree handle [part] found
  | next {part : Part} {chain : Chain} {handle middle found : Handle}
      (step : tree.Step part handle middle) (rest : Leads tree middle chain found) :
      Leads tree handle (part :: chain) found

def handlesOf (values : List Value) : List Handle := values.filterMap Value.handle?

def InTree (tree : Tree catalogue) (values : List Value) : Prop :=
  ∀ handle ∈ handlesOf values, tree.hasHandle handle = true

theorem mem_handlesOf {values : List Value} {handle : Handle} :
    handle ∈ handlesOf values ↔ .ofHandle handle ∈ values := by
  simp [handlesOf, handle?_eq_some]

theorem mem_handlesOf_cons {value : Value} {rest : List Value} {handle : Handle} :
    handle ∈ handlesOf (value :: rest) ↔ value.handle? = some handle ∨ handle ∈ handlesOf rest := by
  rw [mem_handlesOf, mem_handlesOf, List.mem_cons, handle?_eq_some, eq_comm]

theorem mem_handlesOf_append {first second : List Value} {handle : Handle} :
    handle ∈ handlesOf (first ++ second) ↔ handle ∈ handlesOf first ∨ handle ∈ handlesOf second := by
  rw [handlesOf, List.filterMap_append, List.mem_append]
  rfl

theorem InTree.append {tree : Tree catalogue} {first second : List Value} (inFirst : tree.InTree first)
    (inSecond : tree.InTree second) : tree.InTree (first ++ second) := by
  intro handle member
  obtain inside | inside := mem_handlesOf_append.mp member
  · exact inFirst handle inside
  · exact inSecond handle inside

section Distinct

variable {tree : Tree catalogue}

theorem addFound_of_scalar {value : Value} (found : Found) (isScalar : value.handle? = none) :
    tree.addFound found value = { found with values := value :: found.values } := by
  simp [addFound, identity?, isScalar]

theorem addFound_of_handle {value : Value} {handle : Handle} (found : Found)
    (isHandle : value.handle? = some handle) : tree.addFound found value =
      if tree.uid handle ∈ found.seen then found
      else ⟨value :: found.values, tree.uid handle :: found.seen⟩ := by
  simp [addFound, identity?, isHandle]

/-- The identities seen are those of the nodes and lists found, each of which is found once. -/
structure Exact (tree : Tree catalogue) (found : Found) : Prop where
  seen : found.seen = (handlesOf found.values).map tree.uid
  nodup : (handlesOf found.values).Nodup
  inTree : tree.InTree found.values

theorem Exact.add (identified : tree.Identified) {found : Found} (exact : tree.Exact found)
    {value : Value} (present : ∀ handle, value.handle? = some handle → tree.hasHandle handle = true) :
    tree.Exact (tree.addFound found value) ∧
      ∀ handle, handle ∈ handlesOf (tree.addFound found value).values ↔
        handle ∈ handlesOf found.values ∨ value.handle? = some handle := by
  cases isHandle : value.handle? with
  | none =>
    have same : handlesOf (value :: found.values) = handlesOf found.values :=
      List.filterMap_cons_none isHandle
    rw [addFound_of_scalar found isHandle]
    refine ⟨⟨?_, ?_, ?_⟩, ?_⟩
    · rw [same]; exact exact.seen
    · rw [same]; exact exact.nodup
    · intro handle member
      rw [same] at member
      exact exact.inTree handle member
    · simp [same]
  | some handle =>
    have isSeen : tree.uid handle ∈ found.seen ↔ handle ∈ handlesOf found.values := by
      rw [exact.seen, List.mem_map]
      constructor
      · rintro ⟨other, member, same⟩
        rwa [← identified.distinct (exact.inTree other member) (present handle isHandle) same]
      · exact fun member => ⟨handle, member, rfl⟩
    have grown : handlesOf (value :: found.values) = handle :: handlesOf found.values :=
      List.filterMap_cons_some isHandle
    rw [addFound_of_handle found isHandle]
    split
    · next seen =>
      refine ⟨exact, fun other => ⟨.inl, ?_⟩⟩
      rintro (inside | ⟨⟨⟩⟩)
      · exact inside
      · exact isSeen.mp seen
    · next unseen =>
      refine ⟨⟨?_, ?_, ?_⟩, ?_⟩
      · rw [grown, List.map_cons, exact.seen]
      · rw [grown]
        exact List.nodup_cons.mpr ⟨fun inside => unseen (isSeen.mpr inside), exact.nodup⟩
      · intro other member
        rw [grown] at member
        obtain rfl | inside := List.mem_cons.mp member
        · exact present _ isHandle
        · exact exact.inTree other inside
      · intro other
        rw [grown, List.mem_cons, or_comm, Option.some.injEq, eq_comm]

theorem Exact.foldl (identified : tree.Identified) {values : List Value}
    (inTree : tree.InTree values) {found : Found} (exact : tree.Exact found) :
    tree.Exact (values.foldl tree.addFound found) ∧
      ∀ handle, handle ∈ handlesOf (values.foldl tree.addFound found).values ↔
        handle ∈ handlesOf found.values ∨ handle ∈ handlesOf values := by
  induction values generalizing found with
  | nil => exact ⟨exact, fun handle => by simp [handlesOf]⟩
  | cons value rest ih =>
    have present (handle : Handle) (isHandle : value.handle? = some handle) :
        tree.hasHandle handle = true :=
      inTree handle (mem_handlesOf_cons.mpr (.inl isHandle))
    have restInTree : tree.InTree rest := fun handle member =>
      inTree handle (mem_handlesOf_cons.mpr (.inr member))
    obtain ⟨added, afterAdding⟩ := exact.add identified present
    obtain ⟨whole, afterAll⟩ := ih restInTree added
    refine ⟨whole, fun handle => ?_⟩
    rw [List.foldl_cons, afterAll, afterAdding, or_assoc, mem_handlesOf_cons]

theorem distinct_spec (identified : tree.Identified) {values : List Value}
    (inTree : tree.InTree values) : (handlesOf (tree.distinct values)).Nodup ∧
      ∀ handle, handle ∈ handlesOf (tree.distinct values) ↔ handle ∈ handlesOf values := by
  have start : tree.Exact ⟨[], []⟩ := ⟨rfl, List.nodup_nil, fun handle member => by
    simp [handlesOf] at member⟩
  obtain ⟨exact, found⟩ := start.foldl identified inTree
  have reversed : handlesOf (tree.distinct values) =
      (handlesOf (values.foldl tree.addFound ⟨[], []⟩).values).reverse := List.filterMap_reverse ..
  rw [reversed]
  refine ⟨List.nodup_reverse.mpr exact.nodup, fun handle => ?_⟩
  rw [List.mem_reverse, found]
  simp [handlesOf]

theorem InTree.distinct (identified : tree.Identified) {values : List Value}
    (inTree : tree.InTree values) : tree.InTree (tree.distinct values) :=
  fun handle member => inTree handle (((distinct_spec identified inTree).2 handle).mp member)

end Distinct

section Parts

variable {tree : Tree catalogue}

theorem WellFormed.mem_passing_iff (formed : tree.WellFormed) {handle found : Handle} {part : Part} :
    found ∈ handlesOf (((tree.expandItem handle part.combinator).filter fun (value, key) =>
      tree.passesPart value key part).map (·.1)) ↔ tree.Step part handle found := by
  simp only [mem_handlesOf, List.mem_map, List.mem_filter, Step]
  constructor
  · rintro ⟨⟨value, key⟩, ⟨isCandidate, passes⟩, rfl⟩
    exact ⟨key, formed.mem_expandItem_iff.mp isCandidate, passes⟩
  · rintro ⟨key, leads, passes⟩
    exact ⟨(.ofHandle found, key), ⟨formed.mem_expandItem_iff.mpr leads, passes⟩, rfl⟩

theorem WellFormed.hasHandle_of_step (formed : tree.WellFormed) {handle found : Handle} {part : Part}
    (step : tree.Step part handle found) : tree.hasHandle found = true := by
  obtain ⟨key, leads, -⟩ := step
  exact formed.hasHandle_of_candidate leads

/-- What a part finds from a node or list is what one step leads to. -/
theorem WellFormed.mem_matchPart_iff (formed : tree.WellFormed) (identified : tree.Identified)
    {handle found : Handle} {part : Part} :
    found ∈ handlesOf (tree.matchPart (.item handle) part) ↔ tree.Step part handle found := by
  rw [← formed.mem_passing_iff]
  refine (distinct_spec identified fun other member => ?_).2 found
  exact formed.hasHandle_of_step (formed.mem_passing_iff.mp member)

theorem WellFormed.inTree_matchPart (formed : tree.WellFormed) (identified : tree.Identified)
    (handle : Handle) (part : Part) : tree.InTree (tree.matchPart (.item handle) part) :=
  fun _ member => formed.hasHandle_of_step ((formed.mem_matchPart_iff identified).mp member)

section Remembered

/-- What evaluation takes a part to find from a node or list. -/
def remembered (tree : Tree catalogue) (memo : Memo) (part : Part) (handle : Handle) : List Value :=
  (memo.lookup (tree.uid handle, part.text)).getD (tree.matchPart (.item handle) part)

theorem expandPart_fst (memo : Memo) (part : Part) (handle : Handle) :
    (tree.expandPart memo (.item handle) part).1 = tree.remembered memo part handle := by
  simp only [expandPart, remembered]
  cases memo.lookup (tree.uid handle, part.text) <;> rfl

/-- Expanding a part fixes what is found under its entry, and nothing else. -/
theorem remembered_expandPart (memo : Memo) (part other : Part) (handle elsewhere : Handle) :
    tree.remembered (tree.expandPart memo (.item handle) part).2 other elsewhere =
      if (tree.uid elsewhere, other.text) = (tree.uid handle, part.text) then
        tree.remembered memo part handle
      else tree.remembered memo other elsewhere := by
  cases known : memo.lookup (tree.uid handle, part.text) with
  | some values =>
    simp only [expandPart, remembered, known]
    split
    · next same =>
      rw [same, known]
      rfl
    · rfl
  | none =>
    simp only [expandPart, remembered, known]
    split
    · next same =>
      rw [same, List.lookup_cons_self]
      rfl
    · next different =>
      rw [List.lookup_cons, beq_false_of_ne different]

/-- The nodes and lists that are remembered are in the tree. -/
def Recorded (tree : Tree catalogue) (memo : Memo) : Prop :=
  ∀ part handle, tree.hasHandle handle = true → tree.InTree (tree.remembered memo part handle)

/-- A part is taken to find what it would find anew. -/
def Faithful (tree : Tree catalogue) (memo : Memo) (part : Part) : Prop :=
  ∀ handle, tree.hasHandle handle = true →
    tree.remembered memo part handle = tree.matchPart (.item handle) part

/-- If the two parts have the same text, they find the same from everywhere in the tree. -/
def Compatible (tree : Tree catalogue) (first second : Part) : Prop :=
  first.text = second.text → ∀ handle, tree.hasHandle handle = true →
    tree.matchPart (.item handle) first = tree.matchPart (.item handle) second

theorem faithful_nil (part : Part) : tree.Faithful [] part := fun _ _ => rfl

theorem WellFormed.recorded_nil (formed : tree.WellFormed) (identified : tree.Identified) :
    tree.Recorded [] :=
  fun part handle _ => formed.inTree_matchPart identified handle part

theorem Recorded.expandPart {memo : Memo} (recorded : tree.Recorded memo) (part : Part)
    {handle : Handle} (present : tree.hasHandle handle = true) :
    tree.Recorded (tree.expandPart memo (.item handle) part).2 := by
  intro other elsewhere inTree
  rw [remembered_expandPart]
  split
  · exact recorded part handle present
  · exact recorded other elsewhere inTree

/-- Expanding a part leaves the memo faithful to the parts it is compatible with. -/
theorem Faithful.expandPart (identified : tree.Identified) {memo : Memo} {part other : Part}
    (faithful : tree.Faithful memo other) (compatible : tree.Compatible part other)
    {handle : Handle} (present : tree.hasHandle handle = true) :
    tree.Faithful (tree.expandPart memo (.item handle) part).2 other := by
  intro elsewhere inTree
  rw [remembered_expandPart]
  split
  · next same =>
    obtain ⟨sameUid, sameText⟩ := Prod.mk.inj same
    obtain rfl := identified.distinct inTree present sameUid
    -- What is remembered is remembered for both parts; otherwise both find the same.
    have found := faithful elsewhere inTree
    rw [remembered, sameText] at found
    rw [remembered]
    cases known : memo.lookup (tree.uid elsewhere, part.text) with
    | some values => rwa [known] at found
    | none => exact compatible sameText.symm elsewhere inTree
  · exact faithful elsewhere inTree

end Remembered

section Chains

def HasAll (tree : Tree catalogue) (handles : List Handle) : Prop :=
  ∀ handle ∈ handles, tree.hasHandle handle = true

theorem expandAll_cons_fst (memo : Memo) (part : Part) (handle : Handle) (rest : List Handle) :
    (tree.expandAll part memo ((handle :: rest).map .item)).1 = tree.remembered memo part handle ++
      (tree.expandAll part (tree.expandPart memo (.item handle) part).2 (rest.map .item)).1 := by
  rw [← expandPart_fst]
  rfl

/-- What expanding one part from one node or list keeps, expanding it from several keeps. -/
theorem expandAll_keeps {Keeps : Memo → Prop} {part : Part}
    (step : ∀ memo handle, tree.hasHandle handle = true → Keeps memo →
      Keeps (tree.expandPart memo (.item handle) part).2)
    {handles : List Handle} (present : tree.HasAll handles) {memo : Memo} (start : Keeps memo) :
    Keeps (tree.expandAll part memo (handles.map .item)).2 := by
  induction handles generalizing memo with
  | nil => exact start
  | cons handle rest ih =>
    obtain ⟨first, others⟩ := List.forall_mem_cons.mp present
    exact ih others (step memo handle first start)

theorem Recorded.expandAll {memo : Memo} (recorded : tree.Recorded memo) (part : Part)
    {handles : List Handle} (present : tree.HasAll handles) :
    tree.InTree (tree.expandAll part memo (handles.map .item)).1 := by
  induction handles generalizing memo with
  | nil => exact fun handle member => absurd member (List.not_mem_nil)
  | cons handle rest ih =>
    obtain ⟨first, others⟩ := List.forall_mem_cons.mp present
    rw [expandAll_cons_fst]
    exact (recorded part handle first).append (ih (recorded.expandPart part first) others)

/-- A faithful memo does not show in what a part finds. -/
theorem Faithful.expandAll (identified : tree.Identified) {memo : Memo} {part : Part}
    (faithful : tree.Faithful memo part) {handles : List Handle} (present : tree.HasAll handles) :
    (tree.expandAll part memo (handles.map .item)).1 =
      handles.flatMap fun handle => tree.matchPart (.item handle) part := by
  induction handles generalizing memo with
  | nil => rfl
  | cons handle rest ih =>
    obtain ⟨first, others⟩ := List.forall_mem_cons.mp present
    have after := faithful.expandPart identified (fun _ _ _ => rfl) first
    rw [expandAll_cons_fst, faithful handle first, ih after others, List.flatMap_cons]

theorem evaluateParts_cons (memo : Memo) (start : List Context) (matched : List Value) (part : Part)
    (rest : Chain) : tree.evaluateParts memo start matched (part :: rest) =
      if tree.distinct (tree.expandAll part memo start).1 = [] then
        ([], (tree.expandAll part memo start).2)
      else tree.evaluateParts (tree.expandAll part memo start).2
        ((handlesOf (tree.distinct (tree.expandAll part memo start).1)).map .item)
        (tree.distinct (tree.expandAll part memo start).1) rest := by
  cases found : tree.distinct (tree.expandAll part memo start).1 with
  | nil => simp [evaluateParts, found]
  | cons value values =>
    simp only [evaluateParts, found]
    rfl

/-- What expanding one part keeps, evaluating a chain keeps, and it finds nothing that is not in the
tree. -/
theorem evaluateParts_keeps (identified : tree.Identified) {Keeps : Memo → Prop}
    (records : ∀ memo, Keeps memo → tree.Recorded memo) {chain : Chain}
    (step : ∀ part ∈ chain, ∀ memo handle, tree.hasHandle handle = true → Keeps memo →
      Keeps (tree.expandPart memo (.item handle) part).2)
    {handles : List Handle} (present : tree.HasAll handles) {matched : List Value}
    (inTree : tree.InTree matched) {memo : Memo} (start : Keeps memo) :
    Keeps (tree.evaluateParts memo (handles.map .item) matched chain).2 ∧
      tree.InTree (tree.evaluateParts memo (handles.map .item) matched chain).1 := by
  induction chain generalizing memo handles matched with
  | nil => exact ⟨start, inTree⟩
  | cons part rest ih =>
    obtain ⟨first, others⟩ := List.forall_mem_cons.mp step
    have kept := expandAll_keeps first present start
    have found := ((records memo start).expandAll part present).distinct identified
    rw [evaluateParts_cons]
    split
    · exact ⟨kept, fun handle member => absurd member (List.not_mem_nil)⟩
    · exact ih others found found kept

/-- The memo is faithful to all parts, and remembers nothing that is not in the tree. -/
structure Transparent (tree : Tree catalogue) (parts : List Part) (memo : Memo) : Prop where
  recorded : tree.Recorded memo
  faithful : ∀ part ∈ parts, tree.Faithful memo part

theorem Transparent.expandPart (identified : tree.Identified) {parts : List Part} {memo : Memo}
    (transparent : tree.Transparent parts memo) {part : Part}
    (compatible : ∀ other ∈ parts, tree.Compatible part other) {handle : Handle}
    (present : tree.hasHandle handle = true) :
    tree.Transparent parts (tree.expandPart memo (.item handle) part).2 where
  recorded := transparent.recorded.expandPart part present
  faithful other isPart :=
    (transparent.faithful other isPart).expandPart identified (compatible other isPart) present

private theorem leads_singleton_iff {part : Part} {handle found : Handle} :
    tree.Leads handle [part] found ↔ tree.Step part handle found := by
  refine ⟨fun leads => ?_, .last⟩
  cases leads with
  | last step => exact step
  | next step rest => cases rest

private theorem leads_cons_iff {part next : Part} {rest : Chain} {handle found : Handle} :
    tree.Leads handle (part :: next :: rest) found ↔
      ∃ middle, tree.Step part handle middle ∧ tree.Leads middle (next :: rest) found := by
  refine ⟨fun leads => ?_, fun ⟨middle, step, rest⟩ => .next step rest⟩
  cases leads with
  | next step rest => exact ⟨_, step, rest⟩

/-- A part finds from several nodes and lists what one step leads to from one of them. -/
theorem WellFormed.mem_expandAll_iff (formed : tree.WellFormed) (identified : tree.Identified)
    {part : Part} {memo : Memo} (recorded : tree.Recorded memo) (faithful : tree.Faithful memo part)
    {handles : List Handle} (present : tree.HasAll handles) (found : Handle) :
    found ∈ handlesOf (tree.distinct (tree.expandAll part memo (handles.map .item)).1) ↔
      ∃ handle ∈ handles, tree.Step part handle found := by
  rw [(distinct_spec identified (recorded.expandAll part present)).2,
    faithful.expandAll identified present, mem_handlesOf]
  simp only [List.mem_flatMap, ← mem_handlesOf, formed.mem_matchPart_iff identified]

/-- A chain whose parts the memo is faithful to finds what it leads to. -/
theorem WellFormed.mem_evaluateParts_iff (formed : tree.WellFormed) (identified : tree.Identified)
    {part : Part} {rest : Chain} {memo : Memo}
    (transparent : tree.Transparent (part :: rest) memo)
    (compatible : ∀ first ∈ part :: rest, ∀ second ∈ part :: rest, tree.Compatible first second)
    {handles : List Handle} (present : tree.HasAll handles) (matched : List Value) (found : Handle) :
    found ∈ handlesOf (tree.evaluateParts memo (handles.map .item) matched (part :: rest)).1 ↔
      ∃ handle ∈ handles, tree.Leads handle (part :: rest) found := by
  induction rest generalizing part memo handles matched with
  | nil =>
    simp only [leads_singleton_iff]
    rw [← formed.mem_expandAll_iff identified transparent.recorded
      (transparent.faithful part (List.mem_cons_self ..)) present, evaluateParts_cons]
    split
    · next none => rw [none]
    · rfl
  | cons next rest ih =>
    have ofPart := formed.mem_expandAll_iff identified transparent.recorded
      (transparent.faithful part (List.mem_cons_self ..)) present
    have later : tree.Transparent (part :: next :: rest)
        (tree.expandAll part memo (handles.map .item)).2 := by
      refine expandAll_keeps (fun memo handle inTree kept => ?_) present transparent
      exact kept.expandPart identified (compatible part (List.mem_cons_self ..)) inTree
    have restTransparent : tree.Transparent (next :: rest)
        (tree.expandAll part memo (handles.map .item)).2 :=
      ⟨later.recorded, fun other isPart => later.faithful other (List.mem_cons_of_mem _ isPart)⟩
    have restCompatible : ∀ first ∈ next :: rest, ∀ second ∈ next :: rest,
        tree.Compatible first second := fun first isFirst second isSecond =>
      compatible first (List.mem_cons_of_mem _ isFirst) second (List.mem_cons_of_mem _ isSecond)
    have throughMiddle : (∃ middle ∈ handlesOf (tree.distinct (tree.expandAll part memo
        (handles.map .item)).1), tree.Leads middle (next :: rest) found) ↔
        ∃ handle ∈ handles, tree.Leads handle (part :: next :: rest) found := by
      constructor
      · rintro ⟨middle, isFound, leads⟩
        obtain ⟨handle, isStart, step⟩ := (ofPart middle).mp isFound
        exact ⟨handle, isStart, .next step leads⟩
      · rintro ⟨handle, isStart, leads⟩
        obtain ⟨middle, step, leads⟩ := leads_cons_iff.mp leads
        exact ⟨middle, (ofPart middle).mpr ⟨handle, isStart, step⟩, leads⟩
    rw [← throughMiddle, evaluateParts_cons]
    split
    · next none => simp [none, handlesOf]
    · exact ih restTransparent restCompatible
        ((transparent.recorded.expandAll part present).distinct identified) _

end Chains

theorem inTree_nil : tree.InTree [] := fun _ member => absurd member List.not_mem_nil

theorem Recorded.evaluateParts (identified : tree.Identified) {memo : Memo}
    (recorded : tree.Recorded memo) {start : Handle} (present : tree.hasHandle start = true)
    (chain : Chain) : tree.Recorded (tree.evaluateParts memo [.item start] [] chain).2 ∧
      tree.InTree (tree.evaluateParts memo [.item start] [] chain).1 := by
  have alone : tree.HasAll [start] := List.forall_mem_singleton.mpr present
  refine evaluateParts_keeps identified (fun _ kept => kept) ?_ alone inTree_nil recorded
  exact fun part _ memo handle inTree kept => kept.expandPart part inTree

theorem Recorded.evaluateChains (identified : tree.Identified) {memo : Memo}
    (recorded : tree.Recorded memo) {start : Handle} (present : tree.hasHandle start = true)
    (chains : List Chain) : tree.InTree (tree.evaluateChains (.item start) memo chains) := by
  induction chains generalizing memo with
  | nil => exact inTree_nil
  | cons chain rest ih =>
    obtain ⟨later, inTree⟩ := recorded.evaluateParts identified present chain
    exact inTree.append (ih later)

/-- Chains whose parts are compatible find what they lead to, whatever was evaluated before. -/
theorem WellFormed.mem_evaluateChains_iff (formed : tree.WellFormed) (identified : tree.Identified)
    (parts : List Part) (compatible : ∀ first ∈ parts, ∀ second ∈ parts, tree.Compatible first second)
    {start : Handle} (present : tree.hasHandle start = true) {chains : List Chain}
    (among : ∀ chain ∈ chains, ∀ part ∈ chain, part ∈ parts) {memo : Memo}
    (transparent : tree.Transparent parts memo) (found : Handle) :
    found ∈ handlesOf (tree.evaluateChains (.item start) memo chains) ↔
      ∃ chain ∈ chains, tree.Leads start chain found := by
  have alone : tree.HasAll [start] := List.forall_mem_singleton.mpr present
  induction chains generalizing memo with
  | nil => simp [evaluateChains, handlesOf]
  | cons chain rest ih =>
    obtain ⟨chainAmong, restAmong⟩ := List.forall_mem_cons.mp among
    have later : tree.Transparent parts (tree.evaluateParts memo [.item start] [] chain).2 := by
      refine (evaluateParts_keeps identified (fun _ kept => kept.recorded) ?_ alone inTree_nil
        transparent).1
      intro part isPart memo handle inTree kept
      exact kept.expandPart identified (compatible part (chainAmong part isPart)) inTree
    have first : found ∈ handlesOf (tree.evaluateParts memo [.item start] [] chain).1 ↔
        tree.Leads start chain found := by
      cases chain with
      | nil => exact ⟨fun member => absurd member List.not_mem_nil, fun leads => by cases leads⟩
      | cons part others =>
        have own : tree.Transparent (part :: others) memo :=
          ⟨transparent.recorded, fun p isPart => transparent.faithful p (chainAmong p isPart)⟩
        have leadsFrom := formed.mem_evaluateParts_iff identified own (fun p isFirst q isSecond =>
          compatible p (chainAmong p isFirst) q (chainAmong q isSecond)) alone [] found
        simpa using leadsFrom
    rw [evaluateChains, mem_handlesOf_append, first, List.exists_mem_cons_iff]
    exact or_congr_right (ih restAmong later)

/-- A selector of which no two different parts have the same text finds, each once, exactly what its
chains lead to. -/
theorem evaluate_eq_leads (reachable : tree.Reachable) {start : Handle}
    (present : tree.hasHandle start = true) {selector : Selector}
    (legible : ∀ first ∈ selector.chains.flatten, ∀ second ∈ selector.chains.flatten,
      first.text = second.text → first = second) :
    (handlesOf (tree.evaluate (.item start) selector)).Nodup ∧
      ∀ found, found ∈ handlesOf (tree.evaluate (.item start) selector) ↔
        ∃ chain ∈ selector.chains, tree.Leads start chain found := by
  have formed := reachable.wellFormed
  have identified := reachable.identified
  have recorded := formed.recorded_nil identified
  obtain ⟨nodup, same⟩ := distinct_spec identified
    (recorded.evaluateChains identified present selector.chains)
  refine ⟨nodup, fun found => (same found).trans ?_⟩
  refine formed.mem_evaluateChains_iff identified selector.chains.flatten ?_ present ?_ ?_ found
  · rintro first isFirst second isSecond sameText handle -
    rw [legible first isFirst second isSecond sameText]
  · exact fun chain isChain part isPart => List.mem_flatten.mpr ⟨chain, isChain, isPart⟩
  · exact ⟨recorded, fun part _ => faithful_nil part⟩

end Parts

/-- The blocks in the list of a block, and those below them, by two chains. -/
def nestedBlocks : Selector :=
  let list : Part := ⟨.child, some "body", none, [], [], []⟩
  let block : Part := ⟨.child, none, some "Block", [], [], []⟩
  let below : Part := ⟨.outsideBlocks, none, some "Block", [], [], []⟩
  ⟨[[list, block], [list, block, below]]⟩

theorem evaluate_eq_leads_movedBlock :
    movedBlock.Reachable ∧ movedBlock.hasHandle (.node ⟨0⟩) = true ∧
      (∀ first ∈ nestedBlocks.chains.flatten, ∀ second ∈ nestedBlocks.chains.flatten,
        first.text = second.text → first = second) ∧
      (∃ chain ∈ nestedBlocks.chains, movedBlock.Leads (.node ⟨0⟩) chain (.node ⟨2⟩)) ∧
      ¬ ∃ chain ∈ nestedBlocks.chains, movedBlock.Leads (.node ⟨0⟩) chain (.node ⟨0⟩) := by
  have reachable : movedBlock.Reachable := ⟨1, _, rfl⟩
  have present : movedBlock.hasHandle (.node ⟨0⟩) = true := by decide +kernel
  have legible : ∀ first ∈ nestedBlocks.chains.flatten, ∀ second ∈ nestedBlocks.chains.flatten,
      first.text = second.text → first = second := by decide +kernel
  obtain ⟨-, finds⟩ := evaluate_eq_leads reachable present legible
  exact ⟨reachable, present, legible, (finds _).mp (by decide +kernel),
    fun leads => absurd ((finds _).mpr leads) (by decide +kernel)⟩

end Arbor.Tree
