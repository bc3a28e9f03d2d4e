import Mathlib.Data.List.Nodup
import Mathlib.Logic.Relation
import ScriptTyping.Store.Basic

set_option autoImplicit false

namespace ScriptTyping.Store

open Relation

section Cells

variable {store : Store} {id other parent : NodeId}

theorem cell_modify (change : Cell → Cell) (id other : NodeId) :
    (store.modify id change).cell other =
      if id = other ∧ id < store.cells.size then change (store.cell other) else store.cell other := by
  simp only [cell, modify, Array.getD_eq_getD_getElem?, Array.getElem?_modify]
  by_cases same : id = other
  · subst same
    by_cases within : id < store.cells.size
    · simp [within]
    · simp [within]
  · simp [same]

@[simp]
theorem size_setParent (parent : Option NodeId) (id : NodeId) :
    (setParent parent store id).cells.size = store.cells.size := by
  simp [setParent, modify]

@[simp]
theorem size_setChildren (id : NodeId) (children : List NodeId) :
    (store.setChildren id children).cells.size = store.cells.size := by
  simp [setChildren, modify]

@[simp]
theorem children_setParent (parent : Option NodeId) (id other : NodeId) :
    (setParent parent store id).children other = store.children other := by
  rw [Store.children, setParent, cell_modify]
  split <;> rfl

@[simp]
theorem label_setParent (parent : Option NodeId) (id other : NodeId) :
    (setParent parent store id).label other = store.label other := by
  rw [Store.label, setParent, cell_modify]
  split <;> rfl

theorem parent_setParent (parent : Option NodeId) (within : id < store.cells.size)
    (other : NodeId) :
    (setParent parent store id).parent other = if id = other then parent else store.parent other := by
  rw [Store.parent, setParent, cell_modify]
  simp only [within, and_true]
  split <;> rfl

@[simp]
theorem parent_setChildren (id : NodeId) (children : List NodeId) (other : NodeId) :
    (store.setChildren id children).parent other = store.parent other := by
  rw [Store.parent, setChildren, cell_modify]
  split <;> rfl

@[simp]
theorem label_setChildren (id : NodeId) (children : List NodeId) (other : NodeId) :
    (store.setChildren id children).label other = store.label other := by
  rw [Store.label, setChildren, cell_modify]
  split <;> rfl

theorem children_setChildren (children : List NodeId) (within : id < store.cells.size)
    (other : NodeId) :
    (store.setChildren id children).children other =
      if id = other then children else store.children other := by
  rw [Store.children, setChildren, cell_modify]
  simp only [within, and_true]
  split <;> rfl

@[simp]
theorem size_setLabel (label : Label) : (store.setLabel id label).cells.size = store.cells.size := by
  simp [setLabel, modify]

@[simp]
theorem children_setLabel (label : Label) (other : NodeId) :
    (store.setLabel id label).children other = store.children other := by
  rw [children, setLabel, cell_modify]
  split <;> rfl

@[simp]
theorem parent_setLabel (label : Label) (other : NodeId) :
    (store.setLabel id label).parent other = store.parent other := by
  rw [Store.parent, setLabel, cell_modify]
  split <;> rfl

theorem label_setLabel (within : id < store.cells.size) (label : Label) (other : NodeId) :
    (store.setLabel id label).label other = if id = other then label else store.label other := by
  rw [Store.label, setLabel, cell_modify]
  simp only [within, and_true]
  split <;> rfl

theorem lt_of_parent (linked : store.parent id = some parent) : id < store.cells.size := by
  by_contra outside
  simp [Store.parent, cell, Array.getD_eq_getD_getElem?, Array.getElem?_eq_none (Nat.le_of_not_lt outside),
    show (default : Cell).parent = none from rfl] at linked

theorem lt_of_mem_children (member : id ∈ store.children parent) : parent < store.cells.size := by
  by_contra outside
  simp [Store.children, cell, Array.getD_eq_getD_getElem?, Array.getElem?_eq_none (Nat.le_of_not_lt outside),
    show (default : Cell).children = [] from rfl] at member

end Cells

def Under (store : Store) (child parent : NodeId) : Prop := store.parent child = some parent

structure WellLinked (store : Store) : Prop where
  once : (store.cells.toList.flatMap (·.children)).Nodup
  linked : ∀ id parent, store.parent id = some parent ↔ id ∈ store.children parent
  acyclic : ∀ id, ¬ TransGen store.Under id id

namespace WellLinked

variable {store : Store} {id receiver : NodeId}

theorem nodup_children (linked : store.WellLinked) (receiver : NodeId) :
    (store.children receiver).Nodup := by
  rw [Store.children, cell, Array.getD_eq_getD_getElem?]
  cases present : store.cells[receiver]? with
  | none => exact List.nodup_nil
  | some cell =>
      exact (List.nodup_flatMap.mp linked.once).1 cell (by
        simpa using Array.mem_of_getElem? present)

theorem of_each (each : ∀ id, (store.children id).Nodup)
    (linked : ∀ id parent, store.parent id = some parent ↔ id ∈ store.children parent)
    (acyclic : ∀ id, ¬ TransGen store.Under id id) : store.WellLinked where
  once := by
    have children (id : NodeId) (within : id < store.cells.toList.length) :
        store.cells.toList[id].children = store.children id := by
      simp only [Array.length_toList] at within
      simp [Store.children, cell, within]
    refine List.nodup_flatMap.mpr ⟨fun cell member => ?_, ?_⟩
    · obtain ⟨id, within, rfl⟩ := List.getElem_of_mem member
      rw [children]
      exact each id
    · refine List.pairwise_iff_getElem.mpr fun first second left right less => ?_
      intro child here there
      simp only [children] at here there
      have same := ((linked child first).mpr here).symm.trans ((linked child second).mpr there)
      exact absurd (Option.some.inj same) (Nat.ne_of_lt less)
  linked := linked
  acyclic := acyclic

theorem not_above_of_mem (linked : store.WellLinked) (member : id ∈ store.children receiver) :
    ¬ ReflTransGen store.Under receiver id := by
  intro above
  have under : store.Under id receiver := (linked.linked id receiver).mpr member
  exact linked.acyclic id (TransGen.head' under above)

end WellLinked

-- The node has got these children, and everything else is as before, apart from the parents of the
-- children that it has now and of those that it had.
structure Relinked (store : Store) (receiver : NodeId) (children : List NodeId) (after : Store) :
    Prop where
  size : after.cells.size = store.cells.size
  label : ∀ id, after.label id = store.label id
  own : after.children receiver = children
  others : ∀ id, id ≠ receiver → after.children id = store.children id
  parent : ∀ id, after.parent id =
    if id ∈ children then some receiver
    else if id ∈ store.children receiver then none
    else store.parent id

namespace Relinked

variable {store after : Store} {receiver : NodeId} {children : List NodeId}

theorem refl (linked : store.WellLinked) (receiver : NodeId) :
    Relinked store receiver (store.children receiver) store where
  size := rfl
  label _ := rfl
  own := rfl
  others _ _ := rfl
  parent id := by
    by_cases member : id ∈ store.children receiver
    · rw [if_pos member, (linked.linked id receiver).mpr member]
    · rw [if_neg member, if_neg member]

theorem trans {middle : Store} {fewer : List NodeId} (first : Relinked store receiver fewer middle)
    (second : Relinked middle receiver children after)
    (among : ∀ id ∈ fewer, id ∈ store.children receiver) :
    Relinked store receiver children after where
  size := second.size.trans first.size
  label id := (second.label id).trans (first.label id)
  own := second.own
  others id other := (second.others id other).trans (first.others id other)
  parent id := by
    rw [second.parent, first.parent, first.own]
    by_cases kept : id ∈ fewer
    · simp [kept, among id kept]
    · simp [kept]

variable (relinked : Relinked store receiver children after)

include relinked

theorem under_iff (linked : store.WellLinked) {child parent : NodeId} (other : child ∉ children) :
    after.Under child parent ↔ store.Under child parent ∧ parent ≠ receiver := by
  rw [Under, Under, relinked.parent, if_neg other]
  by_cases member : child ∈ store.children receiver
  · rw [if_pos member, (linked.linked child receiver).mpr member]
    simp [eq_comm]
  · rw [if_neg member]
    refine ⟨fun under => ⟨under, ?_⟩, And.left⟩
    rintro rfl
    exact member ((linked.linked child parent).mp under)

variable (linked : store.WellLinked)
  (outside : ∀ id ∈ children, ¬ ReflTransGen store.Under receiver id)

include linked outside

theorem under_of_above {id parent : NodeId} (above : ReflTransGen store.Under receiver id)
    (under : after.Under id parent) : store.Under id parent :=
  ((relinked.under_iff linked fun member => outside id member above).mp under).1

theorem transGen_of_above {id top : NodeId} (above : ReflTransGen store.Under receiver id)
    (way : TransGen after.Under id top) : TransGen store.Under id top := by
  induction way with
  | single under => exact .single (relinked.under_of_above linked outside above under)
  | tail _ under ih =>
      exact ih.tail (relinked.under_of_above linked outside (above.trans ih.to_reflTransGen) under)

theorem transGen_cases {id top : NodeId} (way : TransGen after.Under id top) :
    TransGen store.Under id top ∨ ReflTransGen store.Under receiver top := by
  have step {child parent : NodeId} (under : after.Under child parent) :
      store.Under child parent ∨ parent = receiver := by
    by_cases member : child ∈ children
    · rw [Under, relinked.parent, if_pos member] at under
      exact .inr (Option.some.inj under).symm
    · exact .inl ((relinked.under_iff linked member).mp under).1
  induction way with
  | single under =>
      rcases step under with old | rfl
      · exact .inl (.single old)
      · exact .inr .refl
  | tail _ under ih =>
      rcases ih with old | above
      · rcases step under with here | rfl
        · exact .inl (old.tail here)
        · exact .inr .refl
      · exact .inr (above.tail (relinked.under_of_above linked outside above under))

end Relinked

theorem WellLinked.relinked {store after : Store} {receiver : NodeId} {children : List NodeId}
    (linked : store.WellLinked) (relinked : Relinked store receiver children after)
    (distinct : children.Nodup)
    (free : ∀ id ∈ children, store.parent id = none ∨ id ∈ store.children receiver)
    (outside : ∀ id ∈ children, ¬ ReflTransGen store.Under receiver id) : after.WellLinked := by
  refine .of_each (fun id => ?_) (fun id parent => ?_) fun id cycle => ?_
  · by_cases same : id = receiver
    · rw [same, relinked.own]
      exact distinct
    · rw [relinked.others id same]
      exact linked.nodup_children id
  · by_cases same : parent = receiver
    · subst same
      by_cases member : id ∈ children
      · rw [relinked.own, relinked.parent, if_pos member]
        exact ⟨fun _ => member, fun _ => rfl⟩
      · rw [relinked.own]
        refine ⟨fun under => ?_, fun present => absurd present member⟩
        exact absurd rfl ((relinked.under_iff linked member).mp under).2
    · rw [relinked.others parent same, ← linked.linked]
      by_cases member : id ∈ children
      · rw [relinked.parent, if_pos member]
        have elsewhere : store.parent id ≠ some parent := by
          rcases free id member with none | child
          · simp [none]
          · simpa [(linked.linked id receiver).mpr child] using Ne.symm same
        exact ⟨fun here => absurd (Option.some.inj here).symm same, fun there => absurd there elsewhere⟩
      · exact (relinked.under_iff linked member).trans (and_iff_left same)
  · rcases relinked.transGen_cases linked outside cycle with old | above
    · exact linked.acyclic id old
    · exact linked.acyclic id (relinked.transGen_of_above linked outside above cycle)

end ScriptTyping.Store
