import ScriptTyping.Proofs.Store.Layout
import ScriptTyping.Proofs.Store.Subtree

set_option autoImplicit false

namespace ScriptTyping

namespace Draft

mutual

def givens : Draft → List NodeId
  | given id => [id]
  | make _ parts => allGivens parts

def allGivens : List Draft → List NodeId
  | [] => []
  | part :: rest => givens part ++ allGivens rest

end

mutual

def read (store : Store) : Draft → Node
  | given id => store.toNode id
  | make label parts => .node label (readAll store parts)

def readAll (store : Store) : List Draft → List Node
  | [] => []
  | part :: rest => read store part :: readAll store rest

end

def IsMade : Draft → Prop
  | given _ => False
  | make _ _ => True

end Draft

namespace Store

open Relation

variable {store after later : Store} {given others ids : List NodeId} {id : NodeId}

-- Nodes may have been made; what was there has stayed, apart from the parents of the given nodes.
structure Grown (store : Store) (given : List NodeId) (after : Store) : Prop where
  linked : after.WellLinked
  size : store.cells.size ≤ after.cells.size
  label : ∀ id < store.cells.size, after.label id = store.label id
  children : ∀ id < store.cells.size, after.children id = store.children id
  parent : ∀ id < store.cells.size, id ∉ given → after.parent id = store.parent id

namespace Grown

theorem refl (linked : store.WellLinked) (given : List NodeId) : Grown store given store :=
  ⟨linked, le_rfl, fun _ _ => rfl, fun _ _ => rfl, fun _ _ _ => rfl⟩

variable (grown : Grown store given after)

include grown

theorem trans (next : Grown after others later)
    (old : ∀ other ∈ others, other ∈ given ∨ store.cells.size ≤ other) :
    Grown store given later where
  linked := next.linked
  size := grown.size.trans next.size
  label id within := (next.label id (within.trans_le grown.size)).trans (grown.label id within)
  children id within :=
    (next.children id (within.trans_le grown.size)).trans (grown.children id within)
  parent id within new := by
    have kept : id ∉ others := fun member =>
      (old id member).elim new fun beyond => absurd within (Nat.not_lt.mpr beyond)
    rw [next.parent id (within.trans_le grown.size) kept, grown.parent id within new]

theorem mono (among : ∀ id ∈ given, id ∈ others) : Grown store others after :=
  ⟨grown.linked, grown.size, grown.label, grown.children, fun id within new =>
    grown.parent id within fun member => new (among id member)⟩

theorem toNode (linked : store.WellLinked) (within : id < store.cells.size) :
    after.toNode id = store.toNode id :=
  toNode_congr linked.toAcyclic grown.linked.toAcyclic fun part inside =>
    have there := linked.lt_of_contains within inside
    ⟨grown.label part there, grown.children part there⟩

theorem confined : Confined store given after where
  linked := grown.linked
  size := grown.size
  outside id within apart :=
    cell_ext (grown.label id within) (grown.children id within)
      (grown.parent id within fun member => apart ⟨id, member, .refl⟩)

end Grown

def Free (store : Store) (ids : List NodeId) : Prop :=
  ids.Nodup ∧ ∀ id ∈ ids, id < store.cells.size ∧ store.parent id = none

-- The nodes have been made around the given ones, or are given themselves. None of them has a
-- parent, and they read as these trees.
structure Made (store : Store) (given : List NodeId) (after : Store) (ids : List NodeId)
    (trees : List Node) : Prop where
  grown : Grown store given after
  free : after.Free ids
  source : ∀ id ∈ ids, id ∈ given ∨ store.cells.size ≤ id
  read : ids.map after.toNode = trees

section Alloc

variable (linked : store.WellLinked) (label : Label)

theorem wellLinked_alloc (linked : store.WellLinked) : (store.alloc label []).WellLinked :=
  linked.congr (children_alloc label) (parent_alloc label)

theorem relinked_alloc (free : store.Free ids) :
    Relinked (store.alloc label []) store.nextId ids (store.alloc label ids) := by
  have less {id : NodeId} (member : id ∈ ids) : id < store.cells.size + 1 :=
    Nat.lt_succ_of_lt (free.2 id member).1
  obtain ⟨size, labels, children, parents⟩ :=
    foldl_setParent ⟨store.cells.push ⟨label, ids, none⟩⟩ ids
      (fun id member => by simpa using less member) (some store.nextId)
  have cells (id : NodeId) : (⟨store.cells.push ⟨label, ids, none⟩⟩ : Store).cell id =
      if id = store.nextId then ⟨label, ids, none⟩ else (store.alloc label []).cell id := by
    rw [cell_alloc]
    simp only [cell, Array.getD_eq_getD_getElem?, Array.getElem?_push, nextId]
    split <;> rfl
  refine ⟨size.trans (by simp), fun id => (labels id).trans ?_, (children _).trans ?_,
    fun id other => (children id).trans ?_, fun id => (parents id).trans ?_⟩
  · rw [Store.label, cells, Store.label, cell_alloc]
    simp only [nextId]
    split <;> rfl
  · rw [Store.children, cells, if_pos rfl]
  · rw [Store.children, cells, if_neg other, Store.children]
  · rw [children_alloc, children_nextId]
    by_cases member : id ∈ ids
    · rw [if_pos member, if_pos member]
    · rw [if_neg member, if_neg member, if_neg List.not_mem_nil, Store.parent, cells]
      split
      next same => rw [same, parent_alloc, parent_nextId]
      next => rfl

theorem made_alloc (linked : store.WellLinked) (free : store.Free ids) :
    Made store ids (store.alloc label ids) [store.nextId]
      [.node label (ids.map store.toNode)] := by
  have relinked := relinked_alloc label free
  have within {id : NodeId} (less : id < store.cells.size) : id ≠ store.nextId := Nat.ne_of_lt less
  have old (id : NodeId) : (store.alloc label []).label id =
      if id = store.nextId then label else store.label id := by
    rw [Store.label, cell_alloc, nextId]
    split <;> rfl
  have well : (store.alloc label ids).WellLinked := by
    refine (wellLinked_alloc label linked).relinked relinked free.1 (fun id member => .inl ?_) ?_
    · rw [parent_alloc]
      exact (free.2 id member).2
    · intro id member above
      rcases ReflTransGen.cases_head above with same | ⟨_, under, -⟩
      · exact within (free.2 id member).1 same.symm
      · rw [Under, parent_alloc, parent_nextId] at under
        cases under
  have grown : Grown store ids (store.alloc label ids) :=
    { linked := well
      size := relinked.size.ge.trans' (by simp)
      label := fun id less => by rw [relinked.label, old, if_neg (within less)]
      children := fun id less => by rw [relinked.others id (within less), children_alloc]
      parent := fun id less new => by
        rw [relinked.parent, if_neg new, children_alloc, children_nextId, if_neg List.not_mem_nil,
          parent_alloc] }
  refine ⟨grown, ⟨List.nodup_singleton _, fun id member => ?_⟩, fun id member => ?_, ?_⟩
  · obtain rfl := List.mem_singleton.mp member
    refine ⟨relinked.size ▸ by simp [nextId], ?_⟩
    rw [relinked.parent, children_alloc, children_nextId, if_neg List.not_mem_nil, parent_alloc,
      parent_nextId, if_neg fun held => within (free.2 _ held).1 rfl]
  · exact .inr (List.mem_singleton.mp member).ge
  · rw [List.map_singleton, well.toAcyclic.toNode_eq, relinked.label, relinked.own, old,
      if_pos rfl]
    exact congrArg (fun trees => [Tree.node label trees])
      (List.map_congr_left fun id member => grown.toNode linked (free.2 id member).1)

end Alloc

theorem Free.nil : store.Free [] := ⟨List.nodup_nil, fun _ member => absurd member List.not_mem_nil⟩

theorem Free.kept (free : store.Free others) (grown : Grown store given after)
    (new : ∀ id ∈ others, id ∉ given) : after.Free others :=
  ⟨free.1, fun id member => by
    obtain ⟨within, loose⟩ := free.2 id member
    exact ⟨within.trans_le grown.size, (grown.parent id within (new id member)).trans loose⟩⟩

theorem free_append : store.Free (given ++ others) ↔
    store.Free given ∧ store.Free others ∧ ∀ id ∈ others, id ∉ given := by
  simp only [Free, List.nodup_append, List.mem_append]
  grind

theorem free_singleton : store.Free [id] ↔ id < store.cells.size ∧ store.parent id = none := by
  simp [Free]

mutual

theorem ofNode_plain (store : Store) (tree : Node) :
    (Draft.ofNode tree).givens = [] ∧ (Draft.ofNode tree).read store = tree := by
  cases tree with
  | node label children =>
      obtain ⟨none, same⟩ := ofNodes_plain store children
      exact ⟨none, congrArg (Tree.node label) same⟩

theorem ofNodes_plain (store : Store) (trees : List Node) :
    Draft.allGivens (Draft.ofNodes trees) = [] ∧
      Draft.readAll store (Draft.ofNodes trees) = trees := by
  cases trees with
  | nil => exact ⟨rfl, rfl⟩
  | cons tree rest =>
      obtain ⟨here, same⟩ := ofNode_plain store tree
      obtain ⟨none, others⟩ := ofNodes_plain store rest
      rw [Draft.ofNodes, Draft.allGivens, Draft.readAll, here, none, same, others]
      exact ⟨rfl, rfl⟩

end

mutual

theorem read_congr (draft : Draft) (same : ∀ id ∈ draft.givens, after.toNode id = store.toNode id) :
    draft.read after = draft.read store := by
  cases draft with
  | given id => exact same id (List.mem_singleton_self id)
  | make label parts => rw [Draft.read, Draft.read, readAll_congr parts same]

theorem readAll_congr (drafts : List Draft)
    (same : ∀ id ∈ Draft.allGivens drafts, after.toNode id = store.toNode id) :
    Draft.readAll after drafts = Draft.readAll store drafts := by
  cases drafts with
  | nil => rfl
  | cons part rest =>
      rw [Draft.readAll, Draft.readAll, read_congr part fun id member =>
          same id (List.mem_append_left _ member),
        readAll_congr rest fun id member => same id (List.mem_append_right _ member)]

end

theorem Made.append {firsts rest : List Node} {made : List NodeId}
    (first : Made store given after [id] firsts) (next : Made after others later made rest)
    (free : store.Free others) (apart : ∀ other ∈ others, other ∉ given) :
    Made store (given ++ others) later (id :: made) (firsts ++ rest) := by
  obtain ⟨less, loose⟩ := first.free.2 id (List.mem_singleton_self id)
  have new : id ∉ others := fun member =>
    (first.source id (List.mem_singleton_self id)).elim (apart id member) fun beyond =>
      absurd (free.2 id member).1 (Nat.not_lt.mpr beyond)
  have once : id ∉ made := fun member =>
    (next.source id member).elim new fun beyond => absurd less (Nat.not_lt.mpr beyond)
  refine ⟨?_, ⟨List.nodup_cons.mpr ⟨once, next.free.1⟩, fun other member => ?_⟩,
    fun other member => ?_, ?_⟩
  · exact (first.grown.mono fun _ => List.mem_append_left _).trans next.grown fun _ member =>
      .inl (List.mem_append_right _ member)
  · rcases List.mem_cons.mp member with rfl | old
    · exact ⟨less.trans_le next.grown.size, (next.grown.parent other less new).trans loose⟩
    · exact next.free.2 other old
  · rcases List.mem_cons.mp member with rfl | old
    · exact (first.source other (List.mem_singleton_self other)).imp_left (List.mem_append_left _)
    · exact (next.source other old).imp (List.mem_append_right _) first.grown.size.trans
  · rw [List.map_cons, next.grown.toNode first.grown.linked less, next.read, ← first.read,
      List.map_singleton, List.singleton_append]

mutual

theorem made_graft (draft : Draft) {store : Store} (linked : store.WellLinked)
    (free : store.Free draft.givens) :
    Made store draft.givens (store.graft draft).1 [(store.graft draft).2] [draft.read store] := by
  cases draft with
  | given id => exact ⟨.refl linked _, free, fun other member => .inl member, rfl⟩
  | make label parts =>
      have below := made_graftAll parts linked free
      have made := made_alloc label below.grown.linked below.free
      refine ⟨below.grown.trans made.grown below.source, made.free, fun id member => ?_, ?_⟩
      · obtain rfl := List.mem_singleton.mp member
        exact .inr below.grown.size
      · rw [below.read] at made
        exact made.read

theorem made_graftAll (drafts : List Draft) {store : Store} (linked : store.WellLinked)
    (free : store.Free (Draft.allGivens drafts)) :
    Made store (Draft.allGivens drafts) (store.graftAll drafts).1 (store.graftAll drafts).2
      (Draft.readAll store drafts) := by
  cases drafts with
  | nil => exact ⟨.refl linked _, .nil, fun _ member => absurd member List.not_mem_nil, rfl⟩
  | cons part rest =>
      obtain ⟨here, there, apart⟩ := free_append.mp free
      have first := made_graft part linked here
      have later := made_graftAll rest first.grown.linked (there.kept first.grown apart)
      rw [readAll_congr rest fun id member => first.grown.toNode linked (there.2 id member).1] at later
      exact first.append later there apart

end

end Store

end ScriptTyping
