import Mathlib.Data.Finset.Card
import Mathlib.Data.Finset.Range
import ScriptTyping.Proofs.Store.Links

set_option autoImplicit false

namespace ScriptTyping

namespace Tree

variable {α β : Type}

mutual

def map (change : α → β) : Tree α → Tree β
  | node label children => node (change label) (mapAll change children)

def mapAll (change : α → β) : List (Tree α) → List (Tree β)
  | [] => []
  | tree :: rest => map change tree :: mapAll change rest

end

theorem mapAll_eq (change : α → β) (trees : List (Tree α)) :
    mapAll change trees = trees.map (map change) := by
  induction trees with
  | nil => rfl
  | cons tree rest ih => rw [mapAll, ih, List.map_cons]

theorem map_node (change : α → β) (label : α) (children : List (Tree α)) :
    (node label children).map change = node (change label) (children.map (map change)) := by
  rw [map, mapAll_eq]

theorem preorderAll_map (change : α → β) (trees : List (Tree α))
    (each : ∀ tree ∈ trees,
      (tree.map change).preorder = tree.preorder.map fun row => (change row.1, row.2)) :
    preorderAll (trees.map (map change)) =
      (preorderAll trees).map fun row => (change row.1, row.2) := by
  induction trees with
  | nil => rfl
  | cons tree rest ih =>
      have there := ih fun other member => each other (List.mem_cons_of_mem _ member)
      rw [List.map_cons, preorderAll, preorderAll, List.map_append, each tree List.mem_cons_self, there]

theorem preorder_map (change : α → β) (tree : Tree α) :
    (tree.map change).preorder = tree.preorder.map fun row => (change row.1, row.2) := by
  induction tree with
  | node label children ih =>
      rw [map_node, preorder, preorder, List.map_cons, List.length_map, preorderAll_map change children ih]

end Tree

namespace Store

open Relation

variable {store after : Store} {id parent child : NodeId}

def HasChild (store : Store) (parent child : NodeId) : Prop := child ∈ store.children parent

def Acyclic (store : Store) : Prop := ∀ id, ¬ TransGen store.HasChild id id

open Classical in
noncomputable def reached (store : Store) (id : NodeId) : Finset NodeId :=
  (Finset.range store.cells.size).filter (ReflTransGen store.HasChild id)

theorem mem_reached {other : NodeId} :
    other ∈ store.reached id ↔ other < store.cells.size ∧ ReflTransGen store.HasChild id other := by
  classical
  exact Finset.mem_filter.trans (and_congr_left fun _ => Finset.mem_range)

theorem self_mem_reached (held : child ∈ store.children id) : id ∈ store.reached id :=
  mem_reached.mpr ⟨lt_of_mem_children held, .refl⟩

noncomputable def rank (store : Store) (id : NodeId) : Nat := (store.reached id).card

theorem rank_le (store : Store) (id : NodeId) : store.rank id ≤ store.cells.size := by
  have among : store.reached id ⊆ Finset.range store.cells.size := fun other lower =>
    Finset.mem_range.mpr (mem_reached.mp lower).1
  exact (Finset.card_le_card among).trans_eq (Finset.card_range _)

theorem children_of_rank (none : store.rank id = 0) : store.children id = [] := by
  refine List.eq_nil_iff_forall_not_mem.mpr fun child held => ?_
  rw [rank, Finset.card_eq_zero] at none
  exact Finset.notMem_empty id (none ▸ self_mem_reached held)

theorem acyclic_of_descends (number : NodeId → Nat)
    (descends : ∀ id < store.cells.size, ∀ child ∈ store.children id, number child < number id) :
    store.Acyclic := by
  have below {upper lower : NodeId} (way : TransGen store.HasChild upper lower) :
      number lower < number upper := by
    induction way with
    | single held => exact descends _ (lt_of_mem_children held) _ held
    | tail _ held ih => exact (descends _ (lt_of_mem_children held) _ held).trans ih
  exact fun id cycle => Nat.lt_irrefl _ (below cycle)

namespace Acyclic

theorem rank_lt (acyclic : store.Acyclic) (held : child ∈ store.children id) :
    store.rank child < store.rank id := by
  -- All that is below the child is below the node, but the node itself is not below the child.
  have among : store.reached child ⊆ store.reached id := fun other lower =>
    mem_reached.mpr ⟨(mem_reached.mp lower).1, (mem_reached.mp lower).2.head held⟩
  have apart : id ∉ store.reached child := fun lower =>
    acyclic id (TransGen.head' held (mem_reached.mp lower).2)
  exact Finset.card_lt_card
    ((Finset.ssubset_iff_of_subset among).mpr ⟨id, self_mem_reached held, apart⟩)

theorem induct {motive : NodeId → Prop} (acyclic : store.Acyclic)
    (node : ∀ id, (∀ child ∈ store.children id, motive child) → motive id) (id : NodeId) :
    motive id :=
  (measure store.rank).wf.induction id fun id below =>
    node id fun child held => below child (acyclic.rank_lt held)

theorem congr (acyclic : store.Acyclic) (same : ∀ id, after.children id = store.children id) :
    after.Acyclic := by
  have kept : after.HasChild = store.HasChild := by
    funext parent child
    rw [HasChild, HasChild, same]
  unfold Acyclic
  rw [kept]
  exact acyclic

theorem unfold_succ (acyclic : store.Acyclic) {depth : Nat} (deep : store.rank id ≤ depth) :
    store.unfold (depth + 1) id = store.unfold depth id := by
  induction depth generalizing id with
  | zero => rw [unfold, unfold, children_of_rank (Nat.le_zero.mp deep), List.map_nil]
  | succ depth ih =>
      have each : ∀ child ∈ store.children id,
          store.unfold (depth + 1) child = store.unfold depth child := fun child held =>
        ih (Nat.le_of_lt_succ ((acyclic.rank_lt held).trans_le deep))
      rw [unfold, List.map_congr_left each, ← unfold]

theorem view_eq (acyclic : store.Acyclic) (id : NodeId) :
    store.view id = .node (id, store.label id) ((store.children id).map store.view) := by
  have whole := acyclic.unfold_succ (store.rank_le id)
  rw [view, ← whole, unfold]
  rfl

theorem toNode_eq (acyclic : store.Acyclic) (id : NodeId) :
    store.toNode id = .node (store.label id) ((store.children id).map store.toNode) := by
  have read (id : NodeId) : store.toNode id = (store.view id).map (·.2) := by
    rw [toNode, Tree.toList_rows, ← Tree.preorder_map, Tree.ofRows?_preorder, Option.getD_some]
  rw [read, acyclic.view_eq, Tree.map_node, List.map_map]
  exact congrArg (Tree.node _) (List.map_congr_left fun child _ => (read child).symm)

end Acyclic

theorem WellLinked.toAcyclic (linked : store.WellLinked) : store.Acyclic := by
  intro id cycle
  refine linked.acyclic id (transGen_swap.mp (TransGen.mono ?_ _ _ cycle))
  exact fun parent child held => (linked.linked child parent).mpr held

end Store

end ScriptTyping
