import Arbor.Proofs.Conformance
import Arbor.Proofs.Identity
import Arbor.Proofs.Rewriting

/-! # Trees that share a counter

Several trees can be in use at once, of one catalogue or of different ones, and all of them draw their
identities from the same counter; a copy of a tree is a further tree beside it. Whatever happens in such
a grove, no two nodes or lists share an identity, be they in the same tree or not. What there is stays
as what it is: under its identity, of its type, in the field it belongs to. -/

namespace Arbor

namespace Tree

variable {catalogue : Catalogue}

/-- Every node and list of the old tree is still there under its identity, nodes with their types and
lists with their owners. -/
structure Endures (old now : Tree catalogue) : Prop where
  present : ∀ {handle}, old.hasHandle handle = true → now.hasHandle handle = true
  uid : ∀ {handle}, old.hasHandle handle = true → now.uid handle = old.uid handle
  type : ∀ {n}, old.hasNode n = true → now.typeOf n = old.typeOf n
  owner : ∀ {l}, old.hasList l = true → now.owner? l = old.owner? l

namespace Endures

variable {old now later : Tree catalogue}

theorem refl (tree : Tree catalogue) : tree.Endures tree :=
  ⟨id, fun _ => rfl, fun _ => rfl, fun _ => rfl⟩

theorem trans (first : old.Endures now) (second : now.Endures later) : old.Endures later where
  present inOld := second.present (first.present inOld)
  uid inOld := (second.uid (first.present inOld)).trans (first.uid inOld)
  type {n} inOld := by
    have inNow : now.hasHandle (.node n) = true := first.present inOld
    exact (second.type inNow).trans (first.type inOld)
  owner {l} inOld := by
    have inNow : now.hasHandle (.list l) = true := first.present inOld
    exact (second.owner inNow).trans (first.owner inOld)

theorem of_keeps (kept : old.Keeps now) : old.Endures now where
  present := kept.hasHandle
  uid {handle} inOld := by
    cases handle with
    | node n => rw [Tree.uid, Tree.uid, kept.node?_eq inOld]
    | list l => rw [Tree.uid, Tree.uid, kept.list?_eq inOld]
  type inOld := by rw [typeOf, typeOf, kept.node?_eq inOld]
  owner := kept.owner?_eq

theorem of_modifyNode (tree : Tree catalogue) (n : NodeId) {change : Node → Node}
    (uid : ∀ node, (change node).uid = node.uid) (type : ∀ node, (change node).type = node.type) :
    tree.Endures (tree.modifyNode n change) where
  present {handle} inOld := by
    cases handle with
    | node x => exact (hasNode_modifyNode ..).trans inOld
    | list l => exact inOld
  uid _ := uid_modifyNode tree n uid _
  type _ := typeOf_modifyNode tree n _ type
  owner _ := rfl

theorem of_modifyList (tree : Tree catalogue) (l : ListId) {change : NodeList → NodeList}
    (uid : ∀ list, (change list).uid = list.uid) (owner : ∀ list, (change list).owner = list.owner) :
    tree.Endures (tree.modifyList l change) where
  present {handle} inOld := by
    cases handle with
    | node x => exact inOld
    | list k => exact (hasList_modifyList ..).trans inOld
  uid _ := uid_modifyList tree l uid _
  type _ := rfl
  owner _ := owner?_modifyList tree l _ owner

theorem detach (tree : Tree catalogue) (n : NodeId) : tree.Endures (tree.detach n) where
  present {handle} inOld := by
    cases handle with
    | node x => exact (hasNode_detach ..).trans inOld
    | list l => exact (hasList_detach ..).trans inOld
  uid _ := uid_detach ..
  type _ := typeOf_detach ..
  owner _ := owner?_detach ..

theorem of_rewrite {changed : ListId → Prop} (write : Rewrite changed old now) : old.Endures now := by
  cases write with
  | parent parent n | slot n | metadata n => exact of_modifyNode _ n (fun _ => rfl) fun _ => rfl
  | detach n => exact detach _ n
  | items l => exact of_modifyList _ l (fun _ => rfl) fun _ => rfl

theorem of_rewrites {changed : ListId → Prop} (writes : old.Rewrites changed now) :
    old.Endures now := by
  induction writes with
  | refl => exact refl old
  | tail _ write ih => exact ih.trans (of_rewrite write)

end Endures

theorem WellFormed.endures_step {tree : Tree catalogue} (formed : tree.WellFormed)
    {operation : Operation} (noCopy : operation ≠ .copy) : tree.Endures (tree.step operation) := by
  rw [step]
  split
  · rcases formed.rewrites_or_keeps noCopy (fun _ _ => trivial) with writes | kept
    · exact .of_rewrites writes
    · exact .of_keeps kept
  · exact .refl tree

/-- A list field has the same list for good, as the list names the field as its owner. -/
theorem Endures.list {old now : Tree catalogue} (endures : old.Endures now) (oldOwned : old.Owned)
    (nowOwned : now.Owned) {n : NodeId} {place : Nat} {l : ListId}
    (held : (old.slots n)[place]? = some (.list l)) : (now.slots n)[place]? = some (.list l) := by
  have owner := oldOwned.owner_iff.mpr held
  apply nowOwned.owner_iff.mp
  rw [endures.owner (hasList_of_owner? owner), owner]

/-- The tree, to draw further identities from the given number on. -/
def resume (tree : Tree catalogue) (nextUid : Nat) : Tree catalogue := { tree with nextUid }

theorem WellFormed.resume {tree : Tree catalogue} (formed : tree.WellFormed) (nextUid : Nat) :
    (tree.resume nextUid).WellFormed where
  owned :=
    { slots_length := formed.owned.slots_length
      list_field := formed.owned.list_field
      owner_iff := formed.owned.owner_iff
      item_present := formed.owned.item_present
      nodup := formed.owned.nodup
      mem_iff := formed.owned.mem_iff }
  acyclic := formed.acyclic

theorem Conforms.resume {tree : Tree catalogue} (conforms : tree.Conforms) (nextUid : Nat) :
    (tree.resume nextUid).Conforms :=
  conforms.of_written (fun _ => rfl) (fun _ => rfl) (fun _ => rfl) (fun _ _ fits => fits)
    fun _ _ _ _ isItem => .inl isItem

end Tree

structure Planted where
  catalogue : Catalogue
  tree : Tree catalogue

/-- Trees and the counter they share. -/
structure Grove where
  trees : List Planted
  /-- The identity the next node or list of any of the trees gets. -/
  nextUid : Nat

def Operation.copies : Operation → Bool
  | .copy => true
  | _ => false

theorem Operation.copies_iff {operation : Operation} : operation.copies = true ↔ operation = .copy := by
  cases operation <;> simp [copies]

namespace Grove

/-- Something that happens in a grove. -/
inductive Event where
  /-- A new tree, without nodes. -/
  | plant (catalogue : Catalogue)
  /-- An operation on the tree at a place. -/
  | perform (place : Nat) (operation : Operation)

/-- The grove after an event. A copy is put beside the tree it is made of; any other operation changes
the tree where it stands. -/
def step (grove : Grove) : Event → Grove
  | .plant catalogue =>
    ⟨grove.trees ++ [⟨catalogue, Tree.empty catalogue grove.nextUid⟩], grove.nextUid⟩
  | .perform place operation =>
    match grove.trees[place]? with
    | none => grove
    | some planted =>
      let after := (planted.tree.resume grove.nextUid).step operation
      let trees :=
        if operation.copies then grove.trees ++ [⟨planted.catalogue, after⟩]
        else grove.trees.set place ⟨planted.catalogue, after⟩
      ⟨trees, after.nextUid⟩

def run (grove : Grove) (events : List Event) : Grove := events.foldl step grove

/-- The grove is one that events make from nothing. -/
def Reachable (grove : Grove) : Prop := ∃ firstUid events, grove = (⟨[], firstUid⟩ : Grove).run events

/-- Operations on a tree that is alone are a run of the tree. -/
theorem run_alone {catalogue : Catalogue} (tree : Tree catalogue) {operations : List Operation}
    (noCopy : ∀ operation ∈ operations, operation.copies = false) :
    (⟨[⟨catalogue, tree⟩], tree.nextUid⟩ : Grove).run (operations.map (.perform 0)) =
      ⟨[⟨catalogue, tree.run operations⟩], (tree.run operations).nextUid⟩ := by
  induction operations generalizing tree with
  | nil => rfl
  | cons operation rest ih =>
    have first : (⟨[⟨catalogue, tree⟩], tree.nextUid⟩ : Grove).step (.perform 0 operation) =
        ⟨[⟨catalogue, tree.step operation⟩], (tree.step operation).nextUid⟩ := by
      have isOther := noCopy operation (List.mem_cons_self ..)
      simp [step, isOther, Tree.resume]
    have others := ih (tree.step operation) fun other later =>
      noCopy other (List.mem_cons_of_mem _ later)
    rw [← first] at others
    exact others

/-- Every tree stands where it stood, and endures. -/
def Endures (grove later : Grove) : Prop :=
  ∀ (i : Nat) (planted : Planted), grove.trees[i]? = some planted →
    ∃ tree, later.trees[i]? = some ⟨planted.catalogue, tree⟩ ∧ planted.tree.Endures tree

theorem Endures.refl (grove : Grove) : grove.Endures grove := fun _ planted found =>
  ⟨planted.tree, found, .refl planted.tree⟩

theorem Endures.trans {grove middle later : Grove} (first : grove.Endures middle)
    (second : middle.Endures later) : grove.Endures later := by
  intro i planted found
  obtain ⟨tree, inMiddle, endures⟩ := first i planted found
  obtain ⟨after, inLater, further⟩ := second i _ inMiddle
  exact ⟨after, inLater, endures.trans further⟩

theorem Endures.put {grove : Grove} {place : Nat} {planted : Planted} {trees : List Planted}
    (lookup : ∀ j, trees[j]? = if j = place then some planted else grove.trees[j]?)
    (here : ∀ old, grove.trees[place]? = some old →
      ∃ tree, planted = ⟨old.catalogue, tree⟩ ∧ old.tree.Endures tree) (nextUid : Nat) :
    grove.Endures ⟨trees, nextUid⟩ := by
  intro i old found
  rw [lookup]
  split
  · next isHere =>
    obtain ⟨tree, rfl, endures⟩ := here old (isHere ▸ found)
    exact ⟨tree, rfl, endures⟩
  · exact ⟨old.tree, found, .refl old.tree⟩

/-- What holds of every grove that events make. -/
structure Sound (grove : Grove) : Prop where
  formed : ∀ {i : Nat} {planted : Planted}, grove.trees[i]? = some planted → planted.tree.WellFormed
  conforms : ∀ {i : Nat} {planted : Planted}, grove.trees[i]? = some planted → planted.tree.Conforms
  bounded : ∀ {i : Nat} {planted : Planted} {handle : Handle}, grove.trees[i]? = some planted →
    planted.tree.hasHandle handle = true → planted.tree.uid handle < grove.nextUid
  distinct : ∀ {i j : Nat} {first second : Planted} {a b : Handle}, grove.trees[i]? = some first →
    grove.trees[j]? = some second → first.tree.hasHandle a = true → second.tree.hasHandle b = true →
    first.tree.uid a = second.tree.uid b → i = j ∧ a = b

private theorem sound_nil (firstUid : Nat) : (⟨[], firstUid⟩ : Grove).Sound where
  formed found := by simp at found
  conforms found := by simp at found
  bounded found := by simp at found
  distinct found := by simp at found

namespace Sound

variable {grove : Grove}

theorem identified (sound : grove.Sound) {i : Nat} {planted : Planted}
    (found : grove.trees[i]? = some planted) : (planted.tree.resume grove.nextUid).Identified where
  bounded := sound.bounded found
  distinct aPresent bPresent same := (sound.distinct found found aPresent bPresent same).2

/-- One tree is put at a place, whether there was one or not, and shares no identity with the others. -/
theorem put (sound : grove.Sound) {place : Nat} (planted : Planted) {trees : List Planted}
    (lookup : ∀ j, trees[j]? = if j = place then some planted else grove.trees[j]?)
    (grows : grove.nextUid ≤ planted.tree.nextUid) (formed : planted.tree.WellFormed)
    (conforms : planted.tree.Conforms) (identified : planted.tree.Identified)
    (foreign : ∀ {j : Nat} {other : Planted} {a b : Handle}, j ≠ place →
      grove.trees[j]? = some other → planted.tree.hasHandle a = true →
      other.tree.hasHandle b = true → planted.tree.uid a ≠ other.tree.uid b) :
    (⟨trees, planted.tree.nextUid⟩ : Grove).Sound where
  formed {i _} found := by
    rw [lookup] at found
    split at found
    · cases found
      exact formed
    · exact sound.formed found
  conforms {i _} found := by
    rw [lookup] at found
    split at found
    · cases found
      exact conforms
    · exact sound.conforms found
  bounded {i _ _} found present := by
    rw [lookup] at found
    split at found
    · cases found
      exact identified.bounded present
    · exact Nat.lt_of_lt_of_le (sound.bounded found present) grows
  distinct {i j _ _ _ _} first second aPresent bPresent same := by
    rw [lookup] at first second
    split at first <;> split at second
    · next iHere jHere =>
      cases first
      cases second
      exact ⟨iHere.trans jHere.symm, identified.distinct aPresent bPresent same⟩
    · next _ elsewhere =>
      cases first
      exact absurd same (foreign elsewhere second aPresent bPresent)
    · next elsewhere _ =>
      cases second
      exact absurd same.symm (foreign elsewhere first bPresent aPresent)
    · exact sound.distinct first second aPresent bPresent same

/-- What a tree carries over is not in any other tree, and what it draws is in none at all. -/
theorem foreign (sound : grove.Sound) {i j : Nat} (apart : j ≠ i) {planted other : Planted}
    (found : grove.trees[i]? = some planted) (isOther : grove.trees[j]? = some other)
    {after : Tree planted.catalogue} (draws : (planted.tree.resume grove.nextUid).Draws after)
    {a b : Handle} (aPresent : after.hasHandle a = true) (bPresent : other.tree.hasHandle b = true) :
    after.uid a ≠ other.tree.uid b := by
  intro same
  by_cases carried : (planted.tree.resume grove.nextUid).Carried after a
  · have sameBefore : planted.tree.uid a = other.tree.uid b := carried.2.symm.trans same
    exact apart (sound.distinct found isOther carried.1 bPresent sameBefore).1.symm
  · have drawn : grove.nextUid ≤ after.uid a := (draws.drawn aPresent carried).1
    have bound := sound.bounded isOther bPresent
    omega

end Sound

section Runs

private theorem getElem?_concat (trees : List Planted) (planted : Planted) (j : Nat) :
    (trees ++ [planted])[j]? = if j = trees.length then some planted else trees[j]? := by
  split
  · next last => rw [last, List.getElem?_concat_length]
  · next other =>
    rcases Nat.lt_or_gt_of_ne other with inside | outside
    · exact List.getElem?_append_left inside
    · rw [List.getElem?_eq_none (by simp; omega), List.getElem?_eq_none (by omega)]

private theorem getElem?_set {trees : List Planted} {place : Nat} {planted : Planted}
    (found : trees[place]? = some planted) (after : Planted) (j : Nat) :
    (trees.set place after)[j]? = if j = place then some after else trees[j]? := by
  obtain ⟨inside, -⟩ := List.getElem?_eq_some_iff.mp found
  by_cases here : j = place
  · rw [if_pos here, here, List.getElem?_set_self inside]
  · rw [if_neg here, List.getElem?_set_ne (Ne.symm here)]

/-- All of a copy is new. -/
theorem not_carried_copy {catalogue : Catalogue} {tree : Tree catalogue} (identified : tree.Identified)
    (handle : Handle) : ¬ tree.Carried tree.copy handle := by
  rintro ⟨present, same⟩
  have bound := identified.bounded present
  cases handle with
  | node n =>
    rw [Tree.uid_copy_node present] at same
    omega
  | list l =>
    rw [Tree.uid_copy_list present] at same
    omega

/-- An event leaves the grove alone, puts a tree beside the others, or goes on with one of them. -/
inductive Outcome (grove : Grove) : Grove → Prop where
  | unchanged : Outcome grove grove
  | planted (catalogue : Catalogue) : Outcome grove
      ⟨grove.trees ++ [⟨catalogue, .empty catalogue grove.nextUid⟩], grove.nextUid⟩
  | copied {i : Nat} {planted : Planted} (found : grove.trees[i]? = some planted) : Outcome grove
      ⟨grove.trees ++ [⟨planted.catalogue, (planted.tree.resume grove.nextUid).copy⟩],
        (planted.tree.resume grove.nextUid).copy.nextUid⟩
  | changed {i : Nat} {planted : Planted} (found : grove.trees[i]? = some planted)
      {operation : Operation} (noCopy : operation ≠ .copy) : Outcome grove
      ⟨grove.trees.set i ⟨planted.catalogue, (planted.tree.resume grove.nextUid).step operation⟩,
        ((planted.tree.resume grove.nextUid).step operation).nextUid⟩

private theorem step_copy {grove : Grove} {i : Nat} {planted : Planted}
    (found : grove.trees[i]? = some planted) : grove.step (.perform i .copy) =
      ⟨grove.trees ++ [⟨planted.catalogue, (planted.tree.resume grove.nextUid).copy⟩],
        (planted.tree.resume grove.nextUid).copy.nextUid⟩ := by
  rw [step, found]
  rfl

private theorem outcome_step (grove : Grove) (event : Event) :
    grove.Outcome (grove.step event) := by
  cases event with
  | plant catalogue => exact .planted catalogue
  | perform i operation =>
    cases found : grove.trees[i]? with
    | none =>
      rw [step, found]
      exact .unchanged
    | some planted =>
      by_cases isCopy : operation = .copy
      · rw [isCopy, step_copy found]
        exact .copied found
      · have isOther : ¬ operation.copies = true := fun copies => isCopy (Operation.copies_iff.mp copies)
        simp only [step, found, if_neg isOther]
        exact .changed found isCopy

theorem Sound.outcome {grove after : Grove} (sound : grove.Sound) (outcome : grove.Outcome after) :
    after.Sound := by
  cases outcome with
  | unchanged => exact sound
  | planted catalogue =>
    refine sound.put ⟨catalogue, .empty catalogue grove.nextUid⟩ (getElem?_concat _ _)
      (Nat.le_refl _) (Tree.wellFormed_empty _) (Tree.conforms_empty _) (Tree.identified_empty _) ?_
    intro j other a b _ _ aPresent
    cases a <;> simp [Tree.hasHandle, Tree.hasNode, Tree.hasList, Tree.empty] at aPresent
  | @copied i planted found =>
    have formed := (sound.formed found).resume grove.nextUid
    have conforms := (sound.conforms found).resume grove.nextUid
    have evolves : (planted.tree.resume grove.nextUid).Evolves
        (planted.tree.resume grove.nextUid).copy := .single .copy
    have draws := evolves.draws
    refine sound.put ⟨planted.catalogue, _⟩ (getElem?_concat _ _) draws.grows (formed.evolves evolves)
      (conforms.evolves formed evolves) ((sound.identified found).draws draws) ?_
    intro j other a b _ isOther aPresent bPresent same
    have drawn := (draws.drawn aPresent (not_carried_copy (sound.identified found) a)).1
    have bound := sound.bounded isOther bPresent
    exact absurd same (Nat.ne_of_gt (Nat.lt_of_lt_of_le bound drawn))
  | @changed i planted found operation noCopy =>
    have formed := (sound.formed found).resume grove.nextUid
    have conforms := (sound.conforms found).resume grove.nextUid
    have evolves := formed.evolves_step operation
    have draws := evolves.draws
    exact sound.put ⟨planted.catalogue, _⟩ (getElem?_set found _) draws.grows (formed.evolves evolves)
      (conforms.evolves formed evolves) ((sound.identified found).draws draws)
      fun apart isOther => sound.foreign apart found isOther draws

theorem Sound.endures {grove after : Grove} (sound : grove.Sound) (outcome : grove.Outcome after) :
    grove.Endures after := by
  have noneLast (old : Planted) (found : grove.trees[grove.trees.length]? = some old) : False := by
    simp at found
  cases outcome with
  | unchanged => exact .refl grove
  | planted catalogue => exact .put (getElem?_concat _ _) (fun old found => (noneLast old found).elim) _
  | copied => exact .put (getElem?_concat _ _) (fun old found => (noneLast old found).elim) _
  | @changed i planted found operation noCopy =>
    refine .put (getElem?_set found _) (fun old isOld => ?_) _
    obtain rfl : planted = old := Option.some.inj (found.symm.trans isOld)
    have endures := ((sound.formed found).resume grove.nextUid).endures_step noCopy
    exact ⟨_, rfl, endures.present, endures.uid, endures.type, endures.owner⟩

theorem Sound.run {grove : Grove} (sound : grove.Sound) (events : List Event) :
    (grove.run events).Sound ∧ grove.Endures (grove.run events) := by
  induction events generalizing grove with
  | nil => exact ⟨sound, .refl grove⟩
  | cons event rest ih =>
    have outcome := grove.outcome_step event
    obtain ⟨soundAfter, endures⟩ := ih (sound.outcome outcome)
    exact ⟨soundAfter, (sound.endures outcome).trans endures⟩

theorem Reachable.sound {grove : Grove} (reachable : grove.Reachable) : grove.Sound := by
  obtain ⟨firstUid, events, rfl⟩ := reachable
  exact ((sound_nil firstUid).run events).1

/-- In a grove that events made, every identity is below the counter, and no two nodes or lists of the
grove have the same one, be they in one tree or in two. A copy is a further tree with the same nodes and
lists. Whatever happens later, every tree is still there with all its nodes and lists, under their
identities, the nodes with their types and the lists with their owners, and every list field has the list
it had. -/
theorem identities_are_stable {grove : Grove} (reachable : grove.Reachable) :
    (∀ (i : Nat) (planted : Planted) (handle : Handle), grove.trees[i]? = some planted →
      planted.tree.hasHandle handle = true → planted.tree.uid handle < grove.nextUid) ∧
    (∀ (i j : Nat) (first second : Planted) (a b : Handle), grove.trees[i]? = some first →
      grove.trees[j]? = some second → first.tree.hasHandle a = true →
      second.tree.hasHandle b = true → first.tree.uid a = second.tree.uid b → i = j ∧ a = b) ∧
    ∀ (i : Nat) (planted : Planted), grove.trees[i]? = some planted →
      (∃ copy, (grove.step (.perform i .copy)).trees = grove.trees ++ [⟨planted.catalogue, copy⟩] ∧
        ∀ handle, copy.hasHandle handle = planted.tree.hasHandle handle) ∧
      ∀ later, ∃ tree, (grove.run later).trees[i]? = some ⟨planted.catalogue, tree⟩ ∧
        planted.tree.Endures tree ∧
        ∀ (n : NodeId) (place : Nat) (field : Field), planted.tree.hasNode n = true →
          (planted.tree.fields n)[place]? = some field → field.kind = .list →
          ∃ l, (planted.tree.slots n)[place]? = some (.list l) ∧
            (tree.slots n)[place]? = some (.list l) := by
  have sound := reachable.sound
  refine ⟨fun i planted handle found present => sound.bounded found present,
    fun i j first second a b isFirst isSecond aPresent bPresent same =>
      sound.distinct isFirst isSecond aPresent bPresent same,
    fun i planted found => ⟨⟨_, congrArg Grove.trees (step_copy found), fun handle => ?_⟩, ?_⟩⟩
  · cases handle with
    | node n => exact Tree.hasNode_copy ..
    | list l => exact Tree.hasList_copy ..
  · intro later
    obtain ⟨soundLater, endures⟩ := sound.run later
    obtain ⟨tree, inLater, treeEndures⟩ := endures i planted found
    refine ⟨tree, inLater, treeEndures, fun n place field present declared isList => ?_⟩
    obtain ⟨l, held⟩ := (sound.conforms found).exists_list present declared isList
    exact ⟨l, held, treeEndures.list (sound.formed found).owned (soundLater.formed inLater).owned held⟩

/-- A block in the list of another, and a copy of both. -/
def copiedBlock : Grove :=
  (⟨[], 1⟩ : Grove).run [.plant blocks, .perform 0 (.createNode "Block"),
    .perform 0 (.createNode "Block"), .perform 0 (.push ⟨0⟩ (.node ⟨1⟩)), .perform 0 .copy]

/-- The inner block leaves the list, the copy gets a block, and a build fails half-way. -/
theorem identities_are_stable_copiedBlock :
    copiedBlock.Reachable ∧ ∃ first second, copiedBlock.trees[0]? = some first ∧
      copiedBlock.trees[1]? = some second ∧
      first.tree.uid (.node ⟨1⟩) ≠ second.tree.uid (.node ⟨1⟩) ∧
      ∃ tree, (copiedBlock.run [.perform 0 (.detach ⟨1⟩), .perform 1 (.createNode "Block"),
          .perform 0 (.build (.object [(typeKey, .string "Block"),
            ("body", .array [.bool true])]))]).trees[0]? = some ⟨first.catalogue, tree⟩ ∧
        tree.uid (.node ⟨1⟩) = first.tree.uid (.node ⟨1⟩) ∧
        ∃ l, (first.tree.slots ⟨0⟩)[0]? = some (.list l) ∧ (tree.slots ⟨0⟩)[0]? = some (.list l) := by
  have reachable : copiedBlock.Reachable := ⟨1, _, rfl⟩
  have bothThere : copiedBlock.trees[0]?.isSome = true ∧ copiedBlock.trees[1]?.isSome = true := by
    decide +kernel
  obtain ⟨first, isFirst⟩ := Option.isSome_iff_exists.mp bothThere.1
  obtain ⟨second, isSecond⟩ := Option.isSome_iff_exists.mp bothThere.2
  have filled : copiedBlock.trees.all (fun planted => planted.tree.hasHandle (.node ⟨0⟩) &&
      planted.tree.hasHandle (.node ⟨1⟩) &&
      ((planted.tree.fields ⟨0⟩)[0]?.map (·.kind)) == some .list) = true := by
    decide +kernel
  have firstFilled := List.all_eq_true.mp filled first (List.mem_of_getElem? isFirst)
  have secondFilled := List.all_eq_true.mp filled second (List.mem_of_getElem? isSecond)
  simp only [Bool.and_eq_true, beq_iff_eq, Option.map_eq_some_iff] at firstFilled secondFilled
  obtain ⟨⟨outer, inner⟩, field, declared, isList⟩ := firstFilled
  obtain ⟨-, distinct, stable⟩ := identities_are_stable reachable
  obtain ⟨tree, inLater, endures, lists⟩ := (stable 0 first isFirst).2 _
  refine ⟨reachable, first, second, isFirst, isSecond, fun same => ?_, tree, inLater,
    endures.uid inner, lists ⟨0⟩ 0 field outer declared isList⟩
  exact absurd (distinct 0 1 first second _ _ isFirst isSecond inner secondFilled.1.2 same).1 (by decide)

end Runs

end Grove
end Arbor
