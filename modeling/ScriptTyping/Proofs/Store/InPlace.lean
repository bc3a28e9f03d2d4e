import ScriptTyping.Proofs.Node.Lead
import ScriptTyping.Proofs.Store.Graft
import ScriptTyping.Proofs.Store.Trivia

set_option autoImplicit false

namespace ScriptTyping.Store

open Relation

variable {store after : Store} {id child : NodeId} {left right : List NodeId}

theorem insertIdx_append {α : Type} (left right : List α) (item : α) :
    (left ++ right).insertIdx left.length item = left ++ item :: right := by
  induction left with
  | nil => rfl
  | cons head rest ih =>
      rw [List.cons_append, List.length_cons, List.insertIdx_succ_cons, ih, List.cons_append]

theorem mem_around {α : Type} {left right : List α} {item other : α} (beside : other ∈ left ++ right) :
    other ∈ left ++ item :: right :=
  (List.mem_append.mp beside).elim (List.mem_append_left _) fun later =>
    List.mem_append_right _ (List.mem_cons_of_mem _ later)

section Labels

variable (linked : store.WellLinked)

include linked

theorem inPlace_setLabel (within : id < store.cells.size) (label : Label) :
    InPlace store id [] (store.setLabel id label) ∧
      (store.setLabel id label).toNode id = .node label (store.toNode id).children := by
  have kept : (store.setLabel id label).WellLinked :=
    linked.congr (children_setLabel label) (parent_setLabel label)
  have confined : Confined store [id] (store.setLabel id label) :=
    { linked := kept
      size := (size_setLabel label).ge
      outside := fun part _ apart => by
        rw [setLabel, cell_modify, if_neg]
        rintro ⟨rfl, -⟩
        exact apart ⟨id, List.mem_singleton_self id, .refl⟩ }
  have below : ∀ child ∈ store.children id,
      (store.setLabel id label).toNode child = store.toNode child := fun child held =>
    toNode_congr linked.toAcyclic kept.toAcyclic fun part inside => by
      refine ⟨?_, children_setLabel label part⟩
      rw [label_setLabel within, if_neg]
      rintro rfl
      exact linked.not_contains_parent held inside
  refine ⟨⟨confined, parent_setLabel label id, fun _ member => absurd member List.not_mem_nil⟩, ?_⟩
  rw [kept.toAcyclic.toNode_eq, label_setLabel within, if_pos rfl, children_setLabel,
    children_toNode linked.toAcyclic, List.map_congr_left below]

theorem inPlace_setSlot (within : id < store.cells.size) (slot : Option String) :
    InPlace store id [] (store.setSlot id slot) ∧
      (store.setSlot id slot).toNode id = (store.toNode id).withSlot slot := by
  rw [setSlot, Tree.withSlot, label_toNode linked.toAcyclic]
  exact inPlace_setLabel linked within _

theorem firstLeaf?_of_split (inner : store.isLeaf id = false)
    (split : store.children id = left ++ child :: right)
    (before : ∀ other ∈ left, (store.toNode other).leaves = [])
    (present : (store.toNode child).leaves ≠ []) : store.firstLeaf? id = store.firstLeaf? child := by
  have acyclic := linked.toAcyclic
  have read (id : NodeId) : (store.toNode id).leaves = (store.tokens id).map store.label := by
    rw [leaves_toNode acyclic, leaves_eq acyclic]
  have none : left.flatMap store.tokens = [] := by
    refine List.flatMap_eq_nil_iff.mpr fun other member => ?_
    simpa [read] using before other member
  have some : store.tokens child ≠ [] := by simpa [read] using present
  rw [firstLeaf?_eq acyclic, firstLeaf?_eq acyclic, acyclic.tokens_inner inner, split,
    List.flatMap_append, none, List.nil_append, List.flatMap_cons, List.head?_append_of_ne_nil _ some]

theorem inPlace_setTrivia (within : id < store.cells.size) (lead : String) :
    InPlace store id [] (store.setTrivia id lead) ∧
      (store.setTrivia id lead).toNode id = (store.toNode id).withTrivia lead := by
  have acyclic := linked.toAcyclic
  induction id using acyclic.induct with
  | node id below =>
      have whole := acyclic.toNode_eq id
      cases leaf : store.isLeaf id with
      | true =>
          have first : store.firstLeaf? id = some id := by
            rw [firstLeaf?_eq acyclic, acyclic.tokens_leaf leaf, List.head?_singleton]
          rw [setTrivia, first, whole, Tree.withTrivia_leaf lead _ leaf]
          have changed := inPlace_setLabel linked within { store.label id with lead }
          rw [children_toNode acyclic] at changed
          exact changed
      | false =>
          rcases Tree.split_at_first_leaf ((store.children id).map store.toNode) with
            blank | ⟨before, first, behind, parts, blank, present⟩
          · have empty : (store.toNode id).leaves = [] := by
              rw [whole, Tree.leaves_eq_nil_iff_branch leaf]
              exact blank
            have missing : store.firstLeaf? id = none := by
              have tokens := leaves_toNode acyclic id
              rw [empty, leaves_eq acyclic, eq_comm, List.map_eq_nil_iff] at tokens
              rw [firstLeaf?_eq acyclic, tokens, List.head?_nil]
            rw [setTrivia, missing, Tree.withTrivia_of_leaves_nil lead empty]
            exact ⟨.refl linked id, rfl⟩
          · obtain ⟨left, rest, split, rfl, also⟩ := List.map_eq_append_iff.mp parts
            obtain ⟨child, right, rfl, rfl, rfl⟩ := List.map_eq_cons_iff.mp also
            have held := mem_of_split split
            have same : store.setTrivia id lead = store.setTrivia child lead := by
              rw [setTrivia, setTrivia, firstLeaf?_of_split linked leaf split
                (fun other member => blank _ (List.mem_map_of_mem member)) present]
            obtain ⟨inPlace, read⟩ := below child held (linked.lt_of_mem held)
            rw [same]
            refine ⟨inPlace.up linked held, ?_⟩
            rw [inPlace.toNode_parent linked split, read, whole, split, List.map_append, List.map_cons]
            exact (Tree.withTrivia_split lead leaf _ _ _ blank present).symm

end Labels

-- A new node without a parent.
structure Fresh (store after : Store) (id : NodeId) (tree : Node) : Prop where
  new : store.cells.size ≤ id
  within : id < after.cells.size
  parent : after.parent id = none
  read : after.toNode id = tree

theorem Fresh.loose {given : List NodeId} {root : NodeId} {tree : Node}
    (fresh : Fresh store after root tree) (inPlace : InPlace store id given after)
    (linked : store.WellLinked) (within : id < store.cells.size) : after.Loose id root :=
  inPlace.loose_new linked within fresh.new fresh.within fresh.parent

theorem fresh_graft (linked : store.WellLinked) {draft : Draft} (made : draft.IsMade)
    (free : store.Free draft.givens) :
    Confined store draft.givens (store.graft draft).1 ∧
      Fresh store (store.graft draft).1 (store.graft draft).2 (draft.read store) := by
  have grafted := made_graft draft linked free
  obtain ⟨within, parent⟩ := grafted.free.2 _ (List.mem_singleton_self _)
  refine ⟨grafted.grown.confined, ?_, within, parent, List.head_eq_of_cons_eq grafted.read⟩
  cases draft with
  | given id => exact made.elim
  | make label parts => exact (made_graftAll parts linked free).grown.size

-- The node has these children, all of which read as before.
structure Rearranged (store : Store) (id : NodeId) (given order : List NodeId) (after : Store) :
    Prop extends InPlace store id given after where
  children : after.children id = order
  label : after.label id = store.label id
  reads : ∀ child ∈ order, after.toNode child = store.toNode child

theorem Rearranged.toNode {given order : List NodeId}
    (rearranged : Rearranged store id given order after) :
    after.toNode id = .node (store.label id) (order.map store.toNode) := by
  rw [rearranged.linked.toAcyclic.toNode_eq, rearranged.label, rearranged.children,
    List.map_congr_left rearranged.reads]

theorem Relinked.rearranged {given order : List NodeId}
    (relinked : Relinked store id order after) (linked : store.WellLinked)
    (kept : after.WellLinked) (loose : ∀ free ∈ given, store.Loose id free)
    (among : ∀ child ∈ order, child ∈ store.children id ∨ child ∈ given) :
    Rearranged store id given order after := by
  have outside : ∀ child ∈ order, ¬ store.Contains child id := fun child member =>
    (among child member).elim linked.not_contains_parent fun gift => (loose child gift).outside
  refine ⟨⟨relinked.confined kept among, ?_, loose⟩, relinked.own, relinked.label id,
    fun child member => relinked.toNode_other linked.toAcyclic kept.toAcyclic (outside child member)⟩
  rw [relinked.parent, if_neg fun member => outside id member .refl, if_neg (linked.not_mem_own id)]

-- A node with the given tree stands between these children, which read as before.
structure Placed (store : Store) (id : NodeId) (left right : List NodeId) (child : NodeId)
    (tree : Node) (after : Store) : Prop extends InPlace store id [] after where
  children : after.children id = left ++ child :: right
  label : after.label id = store.label id
  reads : ∀ other ∈ left ++ right, after.toNode other = store.toNode other
  read : after.toNode child = tree

theorem Placed.toNode {tree : Node} (placed : Placed store id left right child tree after) :
    after.toNode id =
      .node (store.label id) (left.map store.toNode ++ tree :: right.map store.toNode) := by
  rw [placed.linked.toAcyclic.toNode_eq, placed.label, placed.children, List.map_append,
    List.map_cons, placed.read,
    List.map_congr_left fun other member => placed.reads other (List.mem_append_left _ member),
    List.map_congr_left fun other member => placed.reads other (List.mem_append_right _ member)]

-- The node that stands there now has changed in place.
theorem Placed.onward {placed : Store} {root : NodeId} {tree : Node} {given : List NodeId}
    (first : Placed store id left right root tree placed)
    (next : InPlace placed root given after) :
    after.children id = left ++ root :: right ∧
      (∀ other ∈ left ++ right, after.toNode other = store.toNode other) ∧
      after.toNode id = .node (store.label id)
        (left.map store.toNode ++ after.toNode root :: right.map store.toNode) := by
  have children :=
    (next.children_parent first.linked (mem_of_split first.children)).trans first.children
  have same : ∀ other ∈ left ++ right, after.toNode other = store.toNode other :=
    fun other beside =>
      (next.toNode_beside first.linked first.children other beside).trans (first.reads other beside)
  refine ⟨children, same, ?_⟩
  rw [next.toNode_parent first.linked first.children, first.label,
    List.map_congr_left fun other member => first.reads other (List.mem_append_left _ member),
    List.map_congr_left fun other member => first.reads other (List.mem_append_right _ member)]

section Children

variable (linked : store.WellLinked)

include linked

theorem detached (split : store.children id = left ++ child :: right) :
    Rearranged store id [] (left ++ right) (store.without id child) ∧
      (store.without id child).Loose id child ∧
      (store.without id child).toNode child = store.toNode child := by
  have held := mem_of_split split
  have relinked := relinked_without linked held
  have kept := wellLinked_without linked held
  have erased : (store.children id).erase child = left ++ right := by
    have new : child ∉ left := fun member => (linked.sibling_of_split split (.inl member)).2 rfl
    rw [split, List.erase_append_right _ new, List.erase_cons_head]
  have gone : child ∉ (store.children id).erase child := fun member =>
    ((linked.nodup_children id).mem_erase_iff.mp member).1 rfl
  have parent : (store.without id child).parent child = none := by
    rw [relinked.parent, if_neg gone, if_pos held]
  have rearranged := relinked.rearranged linked kept (fun _ member => absurd member List.not_mem_nil)
    fun other member => .inl (List.mem_of_mem_erase member)
  have outside := linked.not_contains_parent held
  refine ⟨erased ▸ rearranged, ⟨?_, parent, fun above => ?_⟩, ?_⟩
  · exact (linked.lt_of_mem held).trans_le relinked.size.ge
  · exact outside (rearranged.contains_of_after linked above (lt_of_mem_children held))
  · exact relinked.toNode_other linked.toAcyclic kept.toAcyclic outside

theorem inserted (within : id < store.cells.size) (loose : store.Loose id child)
    (split : store.children id = left ++ right) :
    Rearranged store id [child] (left ++ child :: right)
      (store.insertAt id left.length child) := by
  have short : left.length ≤ (store.children id).length := by
    rw [split, List.length_append]
    exact Nat.le_add_right _ _
  have relinked := relinked_insertAt linked within loose.within short
  rw [split, insertIdx_append] at relinked
  have among {other : NodeId} (member : other ∈ left ++ child :: right) :
      other ∈ store.children id ∨ other ∈ [child] := by
    rw [split, List.mem_append]
    simp only [List.mem_append, List.mem_cons] at member ⊢
    tauto
  have new : child ∉ store.children id := fun held => by
    have parent := (linked.linked child id).mpr held
    rw [loose.parent] at parent
    cases parent
  have distinct : (left ++ child :: right).Nodup :=
    List.nodup_middle.mpr (List.nodup_cons.mpr (split ▸ ⟨new, linked.nodup_children id⟩))
  have free {other : NodeId} (gift : other ∈ [child]) : store.Loose id other :=
    List.mem_singleton.mp gift ▸ loose
  have kept := linked.relinked relinked distinct
    (fun other member => (among member).symm.imp_left fun gift => (free gift).parent)
    fun other member above => (among member).elim
      (fun held => linked.not_contains_parent held (linked.contains_iff.mpr above))
      fun gift => (free gift).outside (linked.contains_iff.mpr above)
  exact relinked.rearranged linked kept (fun _ => free) fun other => among

-- A new tree goes in among the children.
theorem inserted_new (within : id < store.cells.size) (split : store.children id = left ++ right)
    {draft : Draft} (made : draft.IsMade) (plain : draft.givens = []) :
    Placed store id left right (store.graft draft).2 (draft.read store)
      ((store.graft draft).1.insertAt id left.length (store.graft draft).2) := by
  have free : store.Free draft.givens := plain ▸ .nil
  obtain ⟨confined, fresh⟩ := fresh_graft linked made free
  rw [plain] at confined
  obtain ⟨grown, children, labelled, -⟩ := confined.inPlace linked within fun _ member =>
    absurd member List.not_mem_nil
  have loose := fresh.loose grown linked within
  have placed := inserted grown.linked (within.trans_le grown.size) loose (children.trans split)
  refine ⟨grown.trans linked placed.toInPlace fun other member old => ?_, placed.children,
    placed.label.trans labelled, fun other beside => ?_, ?_⟩
  · rw [List.mem_singleton.mp member] at old
    exact absurd old (Nat.not_lt.mpr fresh.new)
  · obtain ⟨-, -, -, same⟩ := confined.inPlace linked (linked.lt_of_mem (split ▸ beside))
      fun _ member => absurd member List.not_mem_nil
    exact (placed.reads other (mem_around beside)).trans same
  · exact (placed.reads _ (List.mem_append_right _ List.mem_cons_self)).trans fresh.read

-- A child is taken out, and a tree that is made from it takes its place.
theorem exchanged (split : store.children id = left ++ child :: right) {made : Store}
    {root : NodeId} {tree : Node} (work : Confined (store.without id child) [child] made)
    (fresh : Fresh (store.without id child) made root tree) :
    Placed store id left right root tree (made.insertAt id left.length root) := by
  obtain ⟨taken, loose, -⟩ := detached linked split
  have within := (lt_of_mem_children (mem_of_split split)).trans_le taken.size
  have alone {part : NodeId} (inside : (store.without id child).Contains id part) :
      ∀ free ∈ [child], (store.without id child).Loose part free := fun free member =>
    List.mem_singleton.mp member ▸ loose.below taken.linked inside
  obtain ⟨grown, children, labelled, -⟩ := work.inPlace taken.linked within (alone .refl)
  have placed := inserted grown.linked (within.trans_le grown.size)
    (fresh.loose grown taken.linked within) (children.trans taken.children)
  have whole := taken.trans linked grown fun other member _ =>
    ⟨id, List.mem_cons_self, List.mem_singleton.mp member ▸ .single (mem_of_split split)⟩
  refine ⟨whole.trans linked placed.toInPlace fun other member old => ?_, placed.children,
    (placed.label.trans labelled).trans taken.label, fun other beside => ?_, ?_⟩
  · rw [List.mem_singleton.mp member] at old
    exact absurd old (Nat.not_lt.mpr (taken.size.trans fresh.new))
  · have held : other ∈ (store.without id child).children id := taken.children ▸ beside
    obtain ⟨-, -, -, same⟩ := work.inPlace taken.linked (taken.linked.lt_of_mem held)
      (alone (.single held))
    exact ((placed.reads other (mem_around beside)).trans same).trans (taken.reads other beside)
  · exact (placed.reads _ (List.mem_append_right _ List.mem_cons_self)).trans fresh.read

theorem Placed.behind {placed : Store} {root : NodeId} {tree : Node}
    (first : InPlace store id [] after) (label : after.label id = store.label id)
    (reads : ∀ other ∈ left ++ right, after.toNode other = store.toNode other)
    (next : Placed after id left right root tree placed) :
    Placed store id left right root tree placed :=
  ⟨first.again linked next.toInPlace, next.children, next.label.trans label,
    fun other beside => (next.reads other beside).trans (reads other beside), next.read⟩

-- Some of the children have changed in place, one after another.
structure Touched (store : Store) (id : NodeId) (items : List NodeId) (trees : List Node)
    (after : Store) : Prop extends InPlace store id [] after where
  children : after.children id = store.children id
  label : after.label id = store.label id
  read : items.map after.toNode = trees
  others : ∀ other ∈ store.children id, other ∉ items → after.toNode other = store.toNode other

theorem Touched.nil (id : NodeId) : Touched store id [] [] store :=
  ⟨.refl linked id, rfl, rfl, rfl, fun _ _ _ => rfl⟩

theorem Touched.cons {items : List NodeId} {trees : List Node} {tree : Node} {later : Store}
    (held : child ∈ store.children id) (inPlace : InPlace store child [] after)
    (read : after.toNode child = tree) (new : child ∉ items)
    (rest : Touched after id items trees later) :
    Touched store id (child :: items) (tree :: trees) later where
  toInPlace := (inPlace.up linked held).again linked rest.toInPlace
  children := rest.children.trans (inPlace.children_parent linked held)
  label := rest.label.trans (inPlace.label_parent linked held)
  read := by
    have there := inPlace.children_parent linked held ▸ held
    rw [List.map_cons, rest.read, rest.others child there new, read]
  others other sibling untouched := by
    have there := inPlace.children_parent linked held ▸ sibling
    rw [List.mem_cons, not_or] at untouched
    rw [rest.others other there untouched.2, inPlace.toNode_sibling linked held sibling untouched.1]

-- New trees take the place of all children.
theorem refilled (within : id < store.cells.size) {drafts : List Draft}
    (plain : Draft.allGivens drafts = []) :
    InPlace store id [] (store.refill id drafts) ∧
      (store.refill id drafts).toNode id = .node (store.label id) (Draft.readAll store drafts) := by
  rw [refill]
  have free : store.Free (Draft.allGivens drafts) := plain ▸ .nil
  have made := made_graftAll drafts linked free
  rw [plain] at made
  obtain ⟨grown, -, labelled, -⟩ := made.grown.confined.inPlace linked within fun _ member =>
    absurd member List.not_mem_nil
  have new {root : NodeId} (member : root ∈ (store.graftAll drafts).2) : store.cells.size ≤ root :=
    (made.source root member).resolve_left List.not_mem_nil
  have loose : ∀ root ∈ (store.graftAll drafts).2, (store.graftAll drafts).1.Loose id root :=
    fun root member =>
      have ⟨inside, parent⟩ := made.free.2 root member
      grown.loose_new linked within (new member) inside parent
  have relinked := relinked_replaceChildren grown.linked (within.trans_le grown.size)
    fun root member => (loose root member).within
  have kept := grown.linked.relinked relinked made.free.1
    (fun root member => .inl (loose root member).parent)
    fun root member above => (loose root member).outside (grown.linked.contains_iff.mpr above)
  have whole := relinked.rearranged grown.linked kept loose fun _ => .inr
  refine ⟨grown.trans linked whole.toInPlace fun root member old => ?_, ?_⟩
  · exact absurd old (Nat.not_lt.mpr (new member))
  · rw [whole.toNode, labelled, made.read]

end Children

end ScriptTyping.Store
