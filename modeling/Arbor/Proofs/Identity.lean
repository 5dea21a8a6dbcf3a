import Arbor.Proofs.Building

/-! # Identities

Nodes and lists of a tree have identities from one counter. Adding a node takes an identity for the
node and one for each of its lists, a copy takes as many as there are nodes and lists, and no other
edit touches them; so no two nodes or lists of a tree share one. The step lemma is about the counter alone
and holds of any tree: what is not carried over gets an identity that was not given out before. -/

namespace Arbor.Tree

variable {catalogue : Catalogue}

/-- Identities are below the counter and belong to one node or list each. -/
structure Identified (tree : Tree catalogue) : Prop where
  bounded : ∀ {handle}, tree.hasHandle handle = true → tree.uid handle < tree.nextUid
  distinct : ∀ {a b}, tree.hasHandle a = true → tree.hasHandle b = true →
    tree.uid a = tree.uid b → a = b

theorem identified_empty (firstUid : Nat) : (empty catalogue firstUid).Identified where
  bounded := by
    intro handle present
    cases handle <;> simp [hasHandle, hasNode, hasList, empty] at present
  distinct := by
    intro a b present
    cases a <;> simp [hasHandle, hasNode, hasList, empty] at present

/-- The node or list was there before, under the same identity. -/
def Carried (tree after : Tree catalogue) (handle : Handle) : Prop :=
  tree.hasHandle handle = true ∧ after.uid handle = tree.uid handle

/-- What is in the second tree was carried over from the first, or has an identity of its own that the
counter gave out in between. -/
structure Draws (tree after : Tree catalogue) : Prop where
  grows : tree.nextUid ≤ after.nextUid
  drawn : ∀ {handle}, after.hasHandle handle = true → ¬ tree.Carried after handle →
    tree.nextUid ≤ after.uid handle ∧ after.uid handle < after.nextUid
  apart : ∀ {a b}, after.hasHandle a = true → ¬ tree.Carried after a → after.hasHandle b = true →
    ¬ tree.Carried after b → after.uid a = after.uid b → a = b

namespace Draws

variable {tree middle after : Tree catalogue}

theorem of_same (uid : ∀ handle, after.uid handle = tree.uid handle)
    (present : ∀ handle, after.hasHandle handle = tree.hasHandle handle)
    (nextUid : after.nextUid = tree.nextUid) : tree.Draws after := by
  have carried {handle : Handle} (inAfter : after.hasHandle handle = true) :
      tree.Carried after handle := ⟨(present handle).symm.trans inAfter, uid handle⟩
  exact ⟨Nat.le_of_eq nextUid.symm, fun inAfter new => absurd (carried inAfter) new,
    fun inAfter new => absurd (carried inAfter) new⟩

/-- What is added takes identities from the counter on. -/
theorem of_added (kept : ∀ handle, tree.hasHandle handle = true → after.uid handle = tree.uid handle)
    (grows : tree.nextUid ≤ after.nextUid)
    (fresh : ∀ handle, after.hasHandle handle = true → tree.hasHandle handle = false →
      tree.nextUid ≤ after.uid handle ∧ after.uid handle < after.nextUid)
    (apart : ∀ a b, after.hasHandle a = true → tree.hasHandle a = false → after.hasHandle b = true →
      tree.hasHandle b = false → after.uid a = after.uid b → a = b) : tree.Draws after := by
  have new {handle : Handle} (drawn : ¬ tree.Carried after handle) : tree.hasHandle handle = false := by
    by_contra old
    have isOld : tree.hasHandle handle = true := by simpa using old
    exact drawn ⟨isOld, kept handle isOld⟩
  refine ⟨grows, fun inAfter drawn => fresh _ inAfter (new drawn), ?_⟩
  intro a b aPresent aDrawn bPresent bDrawn same
  exact apart a b aPresent (new aDrawn) bPresent (new bDrawn) same

theorem refl (tree : Tree catalogue) : tree.Draws tree :=
  of_same (fun _ => rfl) (fun _ => rfl) rfl

/-- What was carried over in the last step and is new after all was drawn in the first. -/
theorem drawn_before {handle : Handle} (carried : middle.Carried after handle)
    (new : ¬ tree.Carried after handle) : ¬ tree.Carried middle handle := by
  rintro ⟨old, same⟩
  exact new ⟨old, carried.2.trans same⟩

theorem trans (first : tree.Draws middle) (second : middle.Draws after) : tree.Draws after where
  grows := Nat.le_trans first.grows second.grows
  drawn := by
    intro handle inAfter new
    have firstGrows := first.grows
    have secondGrows := second.grows
    by_cases carried : middle.Carried after handle
    · have drawn := first.drawn carried.1 (drawn_before carried new)
      have same := carried.2
      omega
    · have drawn := second.drawn inAfter carried
      omega
  apart := by
    intro a b aPresent aNew bPresent bNew same
    by_cases aCarried : middle.Carried after a <;> by_cases bCarried : middle.Carried after b
    · have sameBefore : middle.uid a = middle.uid b := by rw [← aCarried.2, ← bCarried.2, same]
      exact first.apart aCarried.1 (drawn_before aCarried aNew) bCarried.1
        (drawn_before bCarried bNew) sameBefore
    -- An identity of the first step is below the counter where the second starts.
    · have early := first.drawn aCarried.1 (drawn_before aCarried aNew)
      have late := second.drawn bPresent bCarried
      have aSame := aCarried.2
      omega
    · have early := first.drawn bCarried.1 (drawn_before bCarried bNew)
      have late := second.drawn aPresent aCarried
      have bSame := bCarried.2
      omega
    · exact second.apart aPresent aCarried bPresent bCarried same

/-- The new node takes the first identity and its lists the following ones. -/
theorem node (tree : Tree catalogue) (type : TypeId) (fields : List Field) :
    tree.Draws (tree.allocNode type fields).2 := by
  have slots := freshSlots_newSlots tree type fields
  have nextUid : (tree.allocNode type fields).2.nextUid = tree.nextUid + 1 +
      ((tree.allocNode type fields).2.lists.size - tree.lists.size) := slots.nextUid_eq
  have newNode (x : NodeId) (inAfter : (tree.allocNode type fields).2.hasNode x = true)
      (new : tree.hasNode x = false) : x = ⟨tree.nodes.size⟩ := by
    obtain ⟨node, found⟩ := hasNode_iff.mp inAfter
    rw [node?_allocNode] at found
    split at found
    · next isNew => exact isNew
    · rw [hasNode_iff.mpr ⟨node, found⟩] at new
      contradiction
  have nodeUid : (tree.allocNode type fields).2.uid (.node ⟨tree.nodes.size⟩) = tree.nextUid := by
    simp [uid, node?_allocNode]
  have listUid (l : ListId) (inAfter : (tree.allocNode type fields).2.hasList l = true)
      (new : tree.hasList l = false) : tree.lists.size ≤ l.index ∧
        (tree.allocNode type fields).2.uid (.list l) =
          tree.nextUid + 1 + (l.index - tree.lists.size) := by
    have late : tree.lists.size ≤ l.index := by simpa [hasList] using new
    exact ⟨late, slots.uid_fresh l late inAfter⟩
  have listBound (l : ListId) (inAfter : (tree.allocNode type fields).2.hasList l = true) :
      l.index < (tree.allocNode type fields).2.lists.size := by
    simpa [hasList] using inAfter
  refine of_added ?_ (by omega) ?_ ?_
  · rintro (x | l) old
    · have other : x ≠ ⟨tree.nodes.size⟩ := by
        rintro rfl
        simp [hasHandle, hasNode] at old
      simp only [uid, node?_allocNode, if_neg other]
    · rw [uid, list?_allocNode tree type fields old]
      rfl
  · rintro (x | l) inAfter new
    · rw [newNode x inAfter new, nodeUid]
      omega
    · have bound := listBound l inAfter
      obtain ⟨late, uidEq⟩ := listUid l inAfter new
      omega
  · rintro (x | l) (y | k) aPresent aNew bPresent bNew same
    · rw [newNode x aPresent aNew, newNode y bPresent bNew]
    · obtain ⟨-, uidEq⟩ := listUid k bPresent bNew
      rw [newNode x aPresent aNew, nodeUid] at same
      omega
    · obtain ⟨-, uidEq⟩ := listUid l aPresent aNew
      rw [newNode y bPresent bNew, nodeUid] at same
      omega
    · obtain ⟨lLate, lUid⟩ := listUid l aPresent aNew
      obtain ⟨kLate, kUid⟩ := listUid k bPresent bNew
      have sameIndex : l.index = k.index := by omega
      obtain ⟨l⟩ := l
      obtain ⟨k⟩ := k
      rw [show l = k from sameIndex]

theorem list (tree : Tree catalogue) (items : List (Option NodeId)) :
    tree.Draws (tree.createListOf items).2 := by
  have size : (tree.createListOf items).2.lists.size = tree.lists.size + 1 := by
    simp [createListOf, createList, allocList, setItems, modifyList]
  have new (handle : Handle) (inAfter : (tree.createListOf items).2.hasHandle handle = true)
      (isNew : tree.hasHandle handle = false) : handle = .list ⟨tree.lists.size⟩ := by
    cases handle with
    | node x => exact absurd (inAfter.symm.trans isNew) (by decide)
    | list l =>
      simp only [hasHandle, hasList, size, decide_eq_true_eq, decide_eq_false_iff_not] at inAfter isNew
      obtain ⟨l⟩ := l
      rw [show l = tree.lists.size by simp only at inAfter isNew; omega]
  have newUid : (tree.createListOf items).2.uid (.list ⟨tree.lists.size⟩) = tree.nextUid := by
    simp [uid, list?_createListOf]
  have nextUid : (tree.createListOf items).2.nextUid = tree.nextUid + 1 := rfl
  refine of_added ?_ (by omega) ?_ ?_
  · rintro (x | l) old
    · rfl
    · have other : ¬ l.index = tree.lists.size := by
        simp only [hasHandle, hasList, decide_eq_true_eq] at old
        omega
      simp only [uid, list?_createListOf, if_neg other]
  · intro handle inAfter isNew
    rw [new handle inAfter isNew, newUid]
    omega
  · intro a b aPresent aNew bPresent bNew _
    rw [new a aPresent aNew, new b bPresent bNew]

end Draws

theorem uid_copy_node {tree : Tree catalogue} {x : NodeId} (present : tree.hasNode x = true) :
    tree.copy.uid (.node x) = tree.nextUid + x.index := by
  obtain ⟨node, found⟩ := hasNode_iff.mp present
  simp [uid, node?_copy, found]

theorem uid_copy_list {tree : Tree catalogue} {l : ListId} (present : tree.hasList l = true) :
    tree.copy.uid (.list l) = tree.nextUid + tree.nodes.size + l.index := by
  obtain ⟨list, found⟩ := hasList_iff.mp present
  simp [uid, list?_copy, found]

/-- A copy numbers all nodes from the counter on, and then all lists. -/
theorem identified_copy (tree : Tree catalogue) : tree.copy.Identified where
  bounded := by
    have nextUid : tree.copy.nextUid = tree.nextUid + (tree.nodes.size + tree.lists.size) := rfl
    rintro (x | l) present
    · have inTree : tree.hasNode x = true := (hasNode_copy tree x).symm.trans present
      have bound : x.index < tree.nodes.size := by simpa [hasNode] using inTree
      rw [uid_copy_node inTree]
      omega
    · have inTree : tree.hasList l = true := (hasList_copy tree l).symm.trans present
      have bound : l.index < tree.lists.size := by simpa [hasList] using inTree
      rw [uid_copy_list inTree]
      omega
  distinct := by
    have nodeBound {x : NodeId} (present : tree.hasNode x = true) : x.index < tree.nodes.size := by
      simpa [hasNode] using present
    rintro (x | l) (y | k) aPresent bPresent same
    all_goals simp only [hasHandle, hasNode_copy, hasList_copy] at aPresent bPresent
    · rw [uid_copy_node aPresent, uid_copy_node bPresent] at same
      obtain ⟨x⟩ := x
      obtain ⟨y⟩ := y
      rw [show x = y from Nat.add_left_cancel same]
    · have bound := nodeBound aPresent
      rw [uid_copy_node aPresent, uid_copy_list bPresent] at same
      omega
    · have bound := nodeBound bPresent
      rw [uid_copy_list aPresent, uid_copy_node bPresent] at same
      omega
    · rw [uid_copy_list aPresent, uid_copy_list bPresent] at same
      obtain ⟨l⟩ := l
      obtain ⟨k⟩ := k
      rw [show l = k from Nat.add_left_cancel same]

theorem draws_copy (tree : Tree catalogue) : tree.Draws tree.copy where
  grows := Nat.le_add_right ..
  drawn := by
    rintro (x | l) present -
    · refine ⟨?_, (identified_copy tree).bounded present⟩
      rw [uid_copy_node ((hasNode_copy tree x).symm.trans present)]
      omega
    · refine ⟨?_, (identified_copy tree).bounded present⟩
      rw [uid_copy_list ((hasList_copy tree l).symm.trans present)]
      omega
  apart := fun aPresent _ bPresent _ same => (identified_copy tree).distinct aPresent bPresent same

/-- Edits that add nothing leave identities alone. -/
theorem Edit.draws {tree after : Tree catalogue} (edit : Edit tree after) : tree.Draws after := by
  cases edit with
  | node type declared found concrete => exact .node tree type declared.fields
  | list items present => exact .list tree items
  | copy => exact draws_copy tree
  | metadata id metadata =>
    refine .of_same (fun handle => ?_) (fun handle => ?_) rfl
    · rw [setMetadata, uid_modifyNode]
      exact fun _ => rfl
    · cases handle with
      | node x => exact hasNode_modifyNode ..
      | list l => rfl
  | detach id =>
    refine .of_same (fun handle => uid_detach ..) (fun handle => ?_) (nextUid_detach ..)
    cases handle with
    | node x => exact hasNode_detach ..
    | list l => exact hasList_detach ..
  | write id place field old new held declared admitted =>
    refine .of_same (fun handle => uid_setSlotValue ..) (fun handle => ?_) rfl
    cases handle with
    | node x => exact hasNode_setSlotValue ..
    | list l => rfl
  | attach id child place field old held declared admitted present unheld outside =>
    refine .of_same (fun handle => ?_) (fun handle => ?_) rfl
    · rw [uid_setParent, uid_setSlotValue]
    · cases handle with
      | node x => exact (hasNode_setParent ..).trans (hasNode_setSlotValue ..)
      | list l => rfl
  | cut l start stop isOwned ordered =>
    rw [replaceOwned_nil]
    refine .of_same (fun handle => ?_) (fun handle => ?_) (nextUid_foldl_setParent ..)
    · rw [uid_setItems, uid_foldl_setParent]
    · cases handle with
      | node x => exact hasNode_foldl_setParent ..
      | list k => exact (hasList_setItems ..).trans (hasList_foldl_setParent ..)
  | insert l field before items after isOwned held declared admitted present distinct unheld outside =>
    refine .of_same (fun handle => ?_) (fun handle => ?_) (nextUid_foldl_setParent ..)
    · rw [insertItems, uid_setItems, uid_foldl_setParent]
    · cases handle with
      | node x => exact hasNode_foldl_setParent ..
      | list k => exact (hasList_setItems ..).trans (hasList_foldl_setParent ..)
  | refill l items free present =>
    refine .of_same (fun handle => uid_setItems ..) (fun handle => ?_) rfl
    cases handle with
    | node x => rfl
    | list k => exact hasList_setItems ..

theorem Evolves.draws {tree after : Tree catalogue} (run : tree.Evolves after) : tree.Draws after := by
  induction run with
  | refl => exact .refl tree
  | tail _ edit ih => exact ih.trans edit.draws

theorem Identified.draws {tree after : Tree catalogue} (identified : tree.Identified)
    (draws : tree.Draws after) : after.Identified where
  bounded := by
    intro handle inAfter
    by_cases carried : tree.Carried after handle
    · rw [carried.2]
      exact Nat.lt_of_lt_of_le (identified.bounded carried.1) draws.grows
    · exact (draws.drawn inAfter carried).2
  distinct := by
    intro a b aPresent bPresent same
    by_cases aCarried : tree.Carried after a <;> by_cases bCarried : tree.Carried after b
    · rw [aCarried.2, bCarried.2] at same
      exact identified.distinct aCarried.1 bCarried.1 same
    · have aBound := identified.bounded aCarried.1
      have aSame := aCarried.2
      have bDrawn := draws.drawn bPresent bCarried
      omega
    · have bBound := identified.bounded bCarried.1
      have bSame := bCarried.2
      have aDrawn := draws.drawn aPresent aCarried
      omega
    · exact draws.apart aPresent aCarried bPresent bCarried same

theorem Reachable.identified {tree : Tree catalogue} (reachable : tree.Reachable) :
    tree.Identified := by
  obtain ⟨firstUid, run⟩ := reachable.evolves
  exact (identified_empty firstUid).draws run.draws

end Arbor.Tree
