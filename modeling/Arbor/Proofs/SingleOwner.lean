import Arbor.Proofs.Building

/-! # Single ownership

In every tree that operations make, a node is held in at most one place, and the parent link of a node
says where. The places are all slots of all nodes and all items of the lists that belong to fields; free
lists refer to nodes without holding them. -/

namespace Arbor

/-- A place that can hold a node. -/
inductive Place where
  | slot (node : NodeId) (n : Nat)
  | item (list : ListId) (n : Nat)

namespace Tree

variable {catalogue : Catalogue}

def Holds (tree : Tree catalogue) : Place → NodeId → Prop
  | .slot p n, c => (tree.slots p)[n]? = some (.node c)
  | .item l n, c => tree.isOwned l = true ∧ (tree.items l)[n]? = some (some c)

/-- Where a filtering map meets nothing twice, it meets each thing at one place. -/
theorem eq_of_nodup_filterMap {α β : Type} {meet : α → Option β} {xs : List α} {i j : Nat} {a b : α}
    {c : β} (distinct : (xs.filterMap meet).Nodup) (first : xs[i]? = some a) (meetFirst : meet a = some c)
    (second : xs[j]? = some b) (meetSecond : meet b = some c) : i = j := by
  obtain ⟨iBound, rfl⟩ := List.getElem?_eq_some_iff.mp first
  obtain ⟨jBound, rfl⟩ := List.getElem?_eq_some_iff.mp second
  rw [List.Nodup, List.pairwise_filterMap, List.pairwise_iff_getElem] at distinct
  rcases Nat.lt_trichotomy i j with before | same | after
  · exact absurd rfl (distinct i j iBound jBound before c meetFirst c meetSecond)
  · exact same
  · exact absurd rfl (distinct j i jBound iBound after c meetSecond c meetFirst)

namespace Owned

variable {tree : Tree catalogue}

/-- What holds a node at a place is its parent. -/
theorem parent?_of_holds (owned : tree.Owned) {place : Place} {c : NodeId}
    (holds : tree.Holds place c) :
    tree.parent? (.node c) = some (match place with | .slot p _ => .node p | .item l _ => .list l) := by
  cases place with
  | slot p n => exact owned.parent?_of_slot holds
  | item l n => exact owned.mem_item_iff.mp ⟨holds.1, List.mem_of_getElem? holds.2⟩

theorem eq_of_holds (owned : tree.Owned) {first second : Place} {c : NodeId}
    (holdsFirst : tree.Holds first c) (holdsSecond : tree.Holds second c) : first = second := by
  have sameParent := (owned.parent?_of_holds holdsFirst).symm.trans (owned.parent?_of_holds holdsSecond)
  cases first with
  | slot p n =>
    cases second with
    | slot q m =>
      obtain rfl : p = q := by simpa using sameParent
      rw [eq_of_nodup_filterMap (owned.nodup (.node p)) holdsFirst rfl holdsSecond rfl]
    | item k m => simp at sameParent
  | item l n =>
    cases second with
    | slot q m => simp at sameParent
    | item k m =>
      obtain rfl : l = k := by simpa using sameParent
      have distinct := owned.nodup (.list l)
      rw [members, if_pos holdsFirst.1] at distinct
      rw [eq_of_nodup_filterMap distinct holdsFirst.2 rfl holdsSecond.2 rfl]

theorem parent?_node_iff (owned : tree.Owned) {c p : NodeId} :
    tree.parent? (.node c) = some (.node p) ↔ ∃! n : Nat, (tree.slots p)[n]? = some (.node c) := by
  rw [← owned.mem_slot_iff]
  constructor
  · intro held
    obtain ⟨n, holds⟩ := List.mem_iff_getElem?.mp held
    refine ⟨n, holds, fun m holdsThere => ?_⟩
    exact eq_of_nodup_filterMap (owned.nodup (.node p)) holdsThere rfl holds rfl
  · rintro ⟨n, holds, -⟩
    exact List.mem_of_getElem? holds

theorem parent?_list_iff (owned : tree.Owned) {c : NodeId} {l : ListId} :
    tree.parent? (.node c) = some (.list l) ↔
      tree.isOwned l = true ∧ (tree.items l).count (some c) = 1 := by
  rw [← owned.mem_item_iff]
  refine and_congr_right fun isOwned => ⟨fun held => ?_, fun once => ?_⟩
  · have distinct := owned.nodup (.list l)
    rw [members, if_pos isOwned] at distinct
    calc (tree.items l).count (some c)
        = (itemNodes (tree.items l)).count c := (List.count_filterMap ..).symm
      _ = 1 := List.count_eq_one_of_mem distinct (mem_itemNodes.mpr held)
  · exact List.count_pos_iff.mp (by omega)

end Owned

/-- A node has a node for its parent exactly if one slot of that holds it, and a list exactly if the
list belongs to a field and has it as an item once; no node is held in two places, and one without a
parent in none; a list belongs to a field exactly if the slot of the field has it. -/
theorem single_ownership {tree : Tree catalogue} (reachable : tree.Reachable) :
    (∀ c p, tree.parent? (.node c) = some (.node p) ↔
      ∃! n : Nat, (tree.slots p)[n]? = some (.node c)) ∧
    (∀ c l, tree.parent? (.node c) = some (.list l) ↔
      tree.isOwned l = true ∧ (tree.items l).count (some c) = 1) ∧
    (∀ c first second, tree.Holds first c → tree.Holds second c → first = second) ∧
    (∀ c, tree.parent? (.node c) = none → ∀ place, ¬ tree.Holds place c) ∧
    ∀ l n i, tree.owner? l = some (n, i) ↔ (tree.slots n)[i]? = some (.list l) := by
  have owned := reachable.wellFormed.owned
  refine ⟨fun c p => owned.parent?_node_iff, fun c l => owned.parent?_list_iff,
    fun c first second => owned.eq_of_holds, fun c unheld place holds => ?_,
    fun l n i => owned.owner_iff⟩
  have held := owned.parent?_of_holds holds
  rw [unheld] at held
  contradiction

end Tree

/-- A catalogue with one concrete type, which has a list of nodes and a further node. -/
def blocks : Catalogue where
  name := "blocks"
  types := #[⟨"Node", none, true, []⟩,
    ⟨"Block", some ⟨0⟩, false, [⟨"body", .list, [.type ⟨0⟩], "Node", .undefined⟩,
      ⟨"next", .node, [.type ⟨0⟩], "Node", .undefined⟩]⟩]
  categories := #[]

namespace Tree

/-- Three blocks; the second moves from a field of the first into its list, before the third. -/
def movedBlock : Tree blocks :=
  (empty blocks 1).run [.createNode "Block", .createNode "Block", .createNode "Block",
    .push ⟨0⟩ (.node ⟨2⟩), .set ⟨0⟩ "next" (.node ⟨1⟩), .unshift ⟨0⟩ (.node ⟨1⟩)]

theorem single_ownership_movedBlock :
    movedBlock.Reachable ∧ movedBlock.parent? (.node ⟨1⟩) = some (.list ⟨0⟩) ∧
      movedBlock.isOwned ⟨0⟩ = true ∧ (movedBlock.items ⟨0⟩).count (some ⟨1⟩) = 1 ∧
      ∀ n, ¬ movedBlock.Holds (.slot ⟨0⟩ n) ⟨1⟩ := by
  have reachable : movedBlock.Reachable := ⟨1, _, rfl⟩
  obtain ⟨-, inList, onePlace, -, -⟩ := single_ownership reachable
  have moved : movedBlock.parent? (.node ⟨1⟩) = some (.list ⟨0⟩) := by decide +kernel
  have isItem : movedBlock.Holds (.item ⟨0⟩ 0) ⟨1⟩ := by
    constructor <;> decide +kernel
  refine ⟨reachable, moved, ((inList ⟨1⟩ ⟨0⟩).mp moved).1, ((inList ⟨1⟩ ⟨0⟩).mp moved).2, ?_⟩
  intro n inSlot
  exact Place.noConfusion (onePlace ⟨1⟩ _ _ inSlot isItem)

end Tree
end Arbor
