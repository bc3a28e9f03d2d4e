import ScriptTyping.Parse.Assembly
import ScriptTyping.Proofs.Store.Edits

set_option autoImplicit false

namespace ScriptTyping.Store

open Relation

-- Plain numbers, because places are added and compared.
variable {store after : Store} {parent id : Nat}

section Grow

theorem cell_of_size_le (outside : store.cells.size ≤ id) : store.cell id = default := by
  rw [cell, Array.getD_eq_getD_getElem?, Array.getElem?_eq_none outside, Option.getD_none]

theorem children_of_size_le (outside : store.cells.size ≤ id) : store.children id = [] := by
  rw [children, cell_of_size_le outside]
  rfl

theorem parent_of_size_le (outside : store.cells.size ≤ id) : store.parent id = none := by
  rw [Store.parent, cell_of_size_le outside]
  rfl

theorem cell_alloc (label : Label) (id : Nat) :
    (store.alloc label []).cell id =
      if id = store.cells.size then ⟨label, [], none⟩ else store.cell id := by
  simp only [cell, alloc, List.foldl_nil, Array.getD_eq_getD_getElem?, Array.getElem?_push]
  by_cases same : id = store.cells.size
  · simp [same]
  · simp [same]

@[simp]
theorem size_alloc (label : Label) : (store.alloc label []).cells.size = store.cells.size + 1 := by
  simp [alloc]

@[simp]
theorem children_alloc (label : Label) (id : NodeId) :
    (store.alloc label []).children id = store.children id := by
  by_cases same : id = store.cells.size
  · rw [children_of_size_le (Nat.le_of_eq same.symm), children, cell_alloc, if_pos same]
  · rw [children, cell_alloc, if_neg same, children]

@[simp]
theorem parent_alloc (label : Label) (id : NodeId) :
    (store.alloc label []).parent id = store.parent id := by
  by_cases same : id = store.cells.size
  · rw [parent_of_size_le (Nat.le_of_eq same.symm), Store.parent, cell_alloc, if_pos same]
  · rw [Store.parent, cell_alloc, if_neg same, Store.parent]

theorem WellLinked.congr (linked : store.WellLinked)
    (children : ∀ id, after.children id = store.children id)
    (parent : ∀ id, after.parent id = store.parent id) : after.WellLinked := by
  refine .of_each (fun id => ?_) (fun id above => ?_) fun id cycle => ?_
  · rw [children]
    exact linked.nodup_children id
  · rw [children, parent]
    exact linked.linked id above
  · have kept {lower above : NodeId} (under : after.Under lower above) : store.Under lower above :=
      (parent lower).symm.trans under
    exact linked.acyclic id (TransGen.mono (fun _ _ => kept) _ _ cycle)

@[simp]
theorem size_grow (label : Label) : (store.grow parent label).cells.size = store.cells.size + 1 := by
  simp [grow, append]

theorem label_grow (label : Label) (id : Nat) :
    (store.grow parent label).label id =
      if id = store.cells.size then label else store.label id := by
  rw [grow, append, label_setChildren, label_setParent, Store.label, cell_alloc]
  split <;> rfl

theorem children_grow (within : parent < store.cells.size) (label : Label) (id : Nat) :
    (store.grow parent label).children id =
      if id = parent then store.children parent ++ [store.cells.size] else store.children id := by
  have inside : parent < (setParent (some parent) (store.alloc label []) store.nextId).cells.size := by
    simp only [size_setParent, size_alloc]
    omega
  rw [grow, append, children_setChildren _ inside]
  simp only [eq_comm, children_setParent, children_alloc, nextId]

theorem parent_grow (label : Label) (id : Nat) :
    (store.grow parent label).parent id =
      if id = store.cells.size then some parent else store.parent id := by
  rw [grow, append, parent_setChildren, parent_setParent _ (by simp [nextId])]
  simp only [eq_comm, parent_alloc, nextId]

theorem children_nextId (store : Store) : store.children store.nextId = [] :=
  children_of_size_le (Nat.le_refl _)

theorem parent_nextId (store : Store) : store.parent store.nextId = none :=
  parent_of_size_le (Nat.le_refl _)

theorem WellLinked.grow (linked : store.WellLinked) (within : parent < store.cells.size)
    (label : Label) : (store.grow parent label).WellLinked := by
  have alloc : (store.alloc label []).WellLinked := linked.congr (by simp) (by simp)
  have new : store.nextId ∉ store.children parent := fun member => by
    have under := (linked.linked _ parent).mpr member
    rw [parent_nextId] at under
    cases under
  have inside : parent < (store.alloc label []).cells.size := by
    rw [size_alloc]
    omega
  have made : store.nextId < (store.alloc label []).cells.size := by
    rw [size_alloc]
    exact Nat.lt_succ_self _
  refine alloc.relinked (relinked_append alloc inside made) ?_ (fun id member => ?_)
    fun id member above => ?_
  · rw [children_alloc]
    exact (linked.nodup_children parent).append (List.nodup_singleton _) (by simpa using new)
  · rcases List.mem_append.mp member with old | last
    · exact .inr old
    · rw [List.mem_singleton.mp last, parent_alloc, parent_nextId]
      exact .inl rfl
  · rcases List.mem_append.mp member with old | last
    · exact alloc.not_above_of_mem old above
    · -- The new node is above no other, as it has no children.
      rw [List.mem_singleton.mp last] at above
      rcases above.cases_tail with same | ⟨lower, _, under⟩
      · exact absurd within (by simp [← same, nextId])
      · have lowest := (alloc.linked lower _).mp under
        rw [children_alloc, children_nextId] at lowest
        cases lowest

end Grow

mutual

def hang (parent : Nat) (store : Store) : Node → Store
  | .node label children => hangAll store.nextId (store.grow parent label) children

def hangAll (parent : Nat) (store : Store) : List Node → Store
  | [] => store
  | tree :: rest => hangAll parent (hang parent store tree) rest

end

theorem size_hangAll_of_each (trees : List Node)
    (each : ∀ tree ∈ trees, ∀ (store : Store) (parent : Nat),
      (hang parent store tree).cells.size = store.cells.size + tree.size)
    (store : Store) (parent : Nat) :
    (hangAll parent store trees).cells.size = store.cells.size + Tree.sizeAll trees := by
  induction trees generalizing store with
  | nil => rfl
  | cons tree rest ih =>
      rw [hangAll, ih fun other member => each other (List.mem_cons_of_mem _ member),
        each tree List.mem_cons_self, Tree.sizeAll, Nat.add_assoc]

@[simp]
theorem size_hang (tree : Node) (store : Store) (parent : Nat) :
    (hang parent store tree).cells.size = store.cells.size + tree.size := by
  induction tree using Tree.induct generalizing store parent with
  | node label children ih =>
      rw [hang, size_hangAll_of_each children ih, size_grow, Tree.size, Nat.add_assoc]

def places (first : Nat) : List Node → List NodeId
  | [] => []
  | tree :: rest => first :: places (first + tree.size) rest

mutual

def Laid (store : Store) (first : Nat) : Node → Prop
  | .node label children =>
      store.label first = label ∧ store.children first = places (first + 1) children ∧
        LaidAll store (first + 1) children

def LaidAll (store : Store) (first : Nat) : List Node → Prop
  | [] => True
  | tree :: rest => Laid store first tree ∧ LaidAll store (first + tree.size) rest

end

theorem LaidAll.congr_of_each {first : Nat} {trees : List Node}
    (each : ∀ tree ∈ trees, ∀ first, (∀ id, first ≤ id → id < first + tree.size →
      after.label id = store.label id ∧ after.children id = store.children id) →
      Laid store first tree → Laid after first tree)
    (same : ∀ id, first ≤ id → id < first + Tree.sizeAll trees →
      after.label id = store.label id ∧ after.children id = store.children id)
    (laid : LaidAll store first trees) : LaidAll after first trees := by
  induction trees generalizing first with
  | nil => trivial
  | cons tree rest ih =>
      simp only [Tree.sizeAll] at same
      exact ⟨each tree List.mem_cons_self first (fun id least upTo => same id least (by omega)) laid.1,
        ih (fun other member => each other (List.mem_cons_of_mem _ member))
          (fun id least upTo => same id (by omega) (by omega)) laid.2⟩

theorem Laid.congr {first : Nat} {tree : Node}
    (same : ∀ id, first ≤ id → id < first + tree.size →
      after.label id = store.label id ∧ after.children id = store.children id)
    (laid : Laid store first tree) : Laid after first tree := by
  induction tree using Tree.induct generalizing first with
  | node label children ih =>
      obtain ⟨labelled, listed, below⟩ := laid
      simp only [Tree.size] at same
      obtain ⟨label', children'⟩ := same first (Nat.le_refl _) (by omega)
      refine ⟨label'.trans labelled, children'.trans listed, below.congr_of_each ?_ ?_⟩
      · exact fun child member first same laid => ih child member same laid
      · exact fun id least upTo => same id (by omega) (by omega)

theorem LaidAll.congr {first : Nat} {trees : List Node}
    (same : ∀ id, first ≤ id → id < first + Tree.sizeAll trees →
      after.label id = store.label id ∧ after.children id = store.children id)
    (laid : LaidAll store first trees) : LaidAll after first trees :=
  laid.congr_of_each (fun _ _ _ => Laid.congr) same

-- The trees have been put under the node, and everything else is as before.
structure Hung (store : Store) (parent : Nat) (trees : List Node) (after : Store) : Prop where
  size : after.cells.size = store.cells.size + Tree.sizeAll trees
  label : ∀ id < store.cells.size, after.label id = store.label id
  own : after.children parent = store.children parent ++ places store.cells.size trees
  others : ∀ id < store.cells.size, id ≠ parent → after.children id = store.children id
  parents : ∀ id < store.cells.size, after.parent id = store.parent id
  adopted : ∀ id, store.cells.size ≤ id → id < after.cells.size →
    ∃ above, after.parent id = some above
  laid : LaidAll after store.cells.size trees
  linked : store.WellLinked → after.WellLinked

theorem Hung.refl (store : Store) (parent : Nat) : Hung store parent [] store where
  size := rfl
  label _ _ := rfl
  own := (List.append_nil _).symm
  others _ _ _ := rfl
  parents _ _ := rfl
  adopted _ least upTo := absurd upTo (Nat.not_lt.mpr least)
  laid := trivial
  linked := id

theorem Hung.cons {middle : Store} {tree : Node} {rest : List Node}
    (within : parent < store.cells.size) (first : Hung store parent [tree] middle)
    (second : Hung middle parent rest after) : Hung store parent (tree :: rest) after := by
  have middleSize : middle.cells.size = store.cells.size + tree.size := first.size
  constructor
  case size => rw [second.size, middleSize, Tree.sizeAll, Nat.add_assoc]
  case label => exact fun id old => (second.label id (by omega)).trans (first.label id old)
  case own => rw [second.own, first.own, middleSize, List.append_assoc, places, places, places,
    List.singleton_append]
  case others =>
    exact fun id old other => (second.others id (by omega) other).trans (first.others id old other)
  case parents => exact fun id old => (second.parents id (by omega)).trans (first.parents id old)
  case adopted =>
    intro id least upTo
    by_cases new : middle.cells.size ≤ id
    · exact second.adopted id new upTo
    · obtain ⟨above, under⟩ := first.adopted id least (by omega)
      exact ⟨above, (second.parents id (by omega)).trans under⟩
  case laid =>
    -- The later trees get higher numbers, so nothing changes within the first one.
    refine ⟨first.laid.1.congr fun id least upTo => ?_, middleSize ▸ second.laid⟩
    exact ⟨second.label id (by omega), second.others id (by omega) (by omega)⟩
  case linked => exact fun linked => second.linked (first.linked linked)

theorem Hung.node {label : Label} {children : List Node} (within : parent < store.cells.size)
    (below : Hung (store.grow parent label) store.cells.size children after) :
    Hung store parent [.node label children] after := by
  have size := below.size
  rw [size_grow] at size
  have old (id : Nat) (old : id < store.cells.size) :
      id < (store.grow parent label).cells.size := by
    rw [size_grow]
    omega
  have parents (id : Nat) (bound : id ≤ store.cells.size) :
      after.parent id = if id = store.cells.size then some parent else store.parent id := by
    rw [below.parents id (by rw [size_grow]; omega), parent_grow]
  constructor
  case size => simp [size, Tree.size, Tree.sizeAll, Nat.add_assoc]
  case label =>
    intro id here
    rw [below.label id (old id here), label_grow, if_neg (Nat.ne_of_lt here)]
  case own =>
    rw [below.others parent (old parent within) (Nat.ne_of_lt within), children_grow within,
      if_pos rfl, places, places]
  case others =>
    intro id here other
    rw [below.others id (old id here) (Nat.ne_of_lt here), children_grow within, if_neg other]
  case parents =>
    intro id here
    rw [parents id (Nat.le_of_lt here), if_neg (Nat.ne_of_lt here)]
  case adopted =>
    intro id least upTo
    by_cases same : id = store.cells.size
    · exact ⟨parent, by rw [parents id (by omega), if_pos same]⟩
    · exact below.adopted id (by rw [size_grow]; omega) upTo
  case laid =>
    refine ⟨⟨?_, ?_, size_grow label ▸ below.laid⟩, trivial⟩
    · rw [below.label _ (by simp), label_grow, if_pos rfl]
    · have childless : store.children store.cells.size = [] := children_nextId store
      rw [below.own, children_grow within, if_neg (Ne.symm (Nat.ne_of_lt within)), childless, size_grow,
        List.nil_append]
  case linked => exact fun linked => below.linked (linked.grow within label)

theorem hung_hangAll_of_each (trees : List Node)
    (each : ∀ tree ∈ trees, ∀ (store : Store) (parent : Nat), parent < store.cells.size →
      Hung store parent [tree] (hang parent store tree))
    (store : Store) (parent : Nat) (within : parent < store.cells.size) :
    Hung store parent trees (hangAll parent store trees) := by
  induction trees generalizing store with
  | nil => exact .refl store parent
  | cons tree rest ih =>
      have first := each tree List.mem_cons_self store parent within
      have size := first.size
      exact .cons within first (ih (fun other member => each other (List.mem_cons_of_mem _ member)) _
        (by omega))

theorem hung_hang (tree : Node) (store : Store) (parent : Nat)
    (within : parent < store.cells.size) : Hung store parent [tree] (hang parent store tree) := by
  induction tree using Tree.induct generalizing store parent with
  | node label children ih =>
      exact .node within (hung_hangAll_of_each children ih _ _ (by simp))

theorem hung_hangAll (trees : List Node) (store : Store) (parent : Nat)
    (within : parent < store.cells.size) : Hung store parent trees (hangAll parent store trees) :=
  hung_hangAll_of_each trees (fun tree _ => hung_hang tree) store parent within

theorem preorderAll_unfold (trees : List Node)
    (each : ∀ tree ∈ trees, ∀ depth first, tree.size ≤ depth → Laid store first tree →
      (store.unfold depth first).preorder.map (fun row => (row.1.2, row.2)) = tree.preorder)
    {depth : Nat} {first : Nat} (deep : Tree.sizeAll trees ≤ depth)
    (laid : LaidAll store first trees) :
    (Tree.preorderAll ((places first trees).map (store.unfold depth))).map
      (fun row => (row.1.2, row.2)) = Tree.preorderAll trees := by
  induction trees generalizing first with
  | nil => rfl
  | cons tree rest ih =>
      simp only [Tree.sizeAll] at deep
      have here := each tree List.mem_cons_self depth first (by omega) laid.1
      have there := ih (fun other member => each other (List.mem_cons_of_mem _ member)) (by omega) laid.2
      simp only [places, List.map_cons, Tree.preorderAll, List.map_append, here, there]

theorem length_places (first : Nat) (trees : List Node) :
    (places first trees).length = trees.length := by
  induction trees generalizing first with
  | nil => rfl
  | cons tree rest ih => simp [places, ih]

theorem preorder_unfold {tree : Node} {depth : Nat} {first : Nat} (deep : tree.size ≤ depth)
    (laid : Laid store first tree) :
    (store.unfold depth first).preorder.map (fun row => (row.1.2, row.2)) = tree.preorder := by
  induction tree using Tree.induct generalizing depth first with
  | node label children ih =>
      obtain ⟨labelled, listed, below⟩ := laid
      simp only [Tree.size] at deep
      obtain ⟨depth, rfl⟩ : ∃ less, depth = less + 1 := ⟨depth - 1, by omega⟩
      have shallower : Tree.sizeAll children ≤ depth := by omega
      have lower := preorderAll_unfold children
        (fun child member depth first => @ih child member depth first) shallower below
      simp only [unfold, listed, Tree.preorder, List.map_cons, labelled, List.length_map,
        length_places, lower]

theorem toNode_of_laid {tree : Node} {first : Nat} (deep : tree.size ≤ store.cells.size)
    (laid : Laid store first tree) : store.toNode first = tree := by
  have rows := preorder_unfold deep laid
  simp only [toNode, view, Tree.toList_rows]
  rw [rows, Tree.ofRows?_preorder, Option.getD_some]

structure Holds (store : Store) (tree : Node) : Prop where
  size : store.cells.size = tree.size
  laid : store.Laid 0 tree
  linked : store.WellLinked
  top : store.parent 0 = none
  adopted : ∀ id, 0 < id → id < store.cells.size → ∃ above, store.parent id = some above

theorem Holds.toNode {tree : Node} (holds : Holds store tree) : store.toNode 0 = tree :=
  toNode_of_laid (Nat.le_of_eq holds.size.symm) holds.laid

-- The root gets its label last.
def plant (provisional : Label) (tree : Node) : Store :=
  (hangAll 0 (Store.empty.alloc provisional []) tree.children).setLabel 0 tree.label

theorem wellLinked_empty : Store.empty.WellLinked where
  once := List.nodup_nil
  linked id parent := by
    rw [parent_of_size_le (Nat.zero_le _), children_of_size_le (Nat.zero_le _)]
    simp
  acyclic id cycle := by
    obtain ⟨above, under, _⟩ := TransGen.head'_iff.mp cycle
    rw [Under, parent_of_size_le (Nat.zero_le _)] at under
    cases under

theorem holds_plant (provisional : Label) (tree : Node) : Holds (plant provisional tree) tree := by
  obtain ⟨label, children⟩ := tree
  let bare := Store.empty.alloc provisional []
  have planted : plant provisional (.node label children) =
      (hangAll 0 bare children).setLabel 0 label := rfl
  have size : bare.cells.size = 1 := rfl
  have hung := hung_hangAll children bare 0 (by simp [size])
  have count := hung.size
  rw [size] at count
  have within : 0 < (hangAll 0 bare children).cells.size := by
    rw [count]
    omega
  rw [planted]
  constructor
  case size => rw [size_setLabel, count, Tree.size]
  case laid =>
    refine ⟨?_, ?_, hung.laid.congr fun id least _ => ⟨?_, children_setLabel _ _⟩⟩
    · rw [label_setLabel within, if_pos rfl]
    · rw [children_setLabel, hung.own]
      rfl
    · rw [label_setLabel within, if_neg (Nat.ne_of_lt least)]
  case linked =>
    have alone : bare.WellLinked := wellLinked_empty.congr (children_alloc _) (parent_alloc _)
    exact (hung.linked alone).congr (children_setLabel _) (parent_setLabel _)
  case top =>
    rw [parent_setLabel, hung.parents 0 (by simp [size])]
    rfl
  case adopted =>
    intro id least upTo
    rw [size_setLabel] at upTo
    rw [parent_setLabel]
    exact hung.adopted id least upTo

end ScriptTyping.Store
