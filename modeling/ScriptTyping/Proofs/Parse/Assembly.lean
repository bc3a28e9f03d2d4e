import ScriptTyping.Proofs.Store.Layout

set_option autoImplicit false

namespace ScriptTyping

open ScriptTyping.Store

variable {source : ByteArray}

def copyLabel (source : ByteArray) (number reached : Nat) (row : ParseLabel × Nat) :
    Except Utf8.Fault (Label × Nat) := do
  let label := row.1
  let inner := label.inner number
  if row.2 = 0 then
    let token ← Utf8.decodeRange source label.start label.stop
    let lead ← Utf8.decodeRange source reached label.start
    return ({ inner with token := some token, lead }, max reached label.stop)
  else
    return (inner, reached)

mutual

def copyTree (source : ByteArray) (number reached : Nat) : ParseTree → Except Utf8.Fault (Node × Nat)
  | .node label children => do
      let (copy, reached) ← copyLabel source number reached (label, children.length)
      let (nodes, reached) ← copyAll source (number + 1) reached children
      return (.node copy nodes, reached)

def copyAll (source : ByteArray) (number reached : Nat) :
    List ParseTree → Except Utf8.Fault (List Node × Nat)
  | [] => return ([], reached)
  | tree :: rest => do
      let (node, reached) ← copyTree source number reached tree
      let (nodes, reached) ← copyAll source (number + node.size) reached rest
      return (node :: nodes, reached)

end

theorem length_copyAll {trees : List ParseTree} {number reached last : Nat} {nodes : List Node}
    (copied : copyAll source number reached trees = .ok (nodes, last)) :
    nodes.length = trees.length := by
  induction trees generalizing number reached nodes last with
  | nil =>
      cases copied
      rfl
  | cons tree rest ih =>
      rw [copyAll] at copied
      obtain ⟨⟨node, next⟩, -, copied⟩ := ok_of_bind copied
      obtain ⟨⟨others, furthest⟩, second, copied⟩ := ok_of_bind copied
      cases copied
      rw [List.length_cons, List.length_cons, ih second]

theorem Hydration.add_eq (state : Hydration) (row : ParseLabel × Nat) :
    add source state row = do
      let (copy, reached) ← copyLabel source (state.rows.size + 1) state.reached row
      return ⟨reached, state.rows.push (copy, row.2)⟩ := by
  rw [add, copyLabel]
  split
  next childless => simp [childless]
  next => rfl

theorem Hydration.foldlM_add_preorderAll (trees : List ParseTree)
    (each : ∀ tree ∈ trees, ∀ state, tree.preorder.foldlM (add source) state = do
      let (node, reached) ← copyTree source (state.rows.size + 1) state.reached tree
      return ⟨reached, state.rows ++ node.preorder.toArray⟩)
    (state : Hydration) :
    (Tree.preorderAll trees).foldlM (add source) state = do
      let (nodes, reached) ← copyAll source (state.rows.size + 1) state.reached trees
      return ⟨reached, state.rows ++ (Tree.preorderAll nodes).toArray⟩ := by
  induction trees generalizing state with
  | nil => simp [Tree.preorderAll, copyAll]
  | cons tree rest ih =>
      rw [Tree.preorderAll, List.foldlM_append, each tree List.mem_cons_self, copyAll]
      simp only [bind_assoc, pure_bind]
      refine bind_congr fun made => ?_
      rw [ih fun other member => each other (List.mem_cons_of_mem _ member)]
      simp [Tree.preorderAll, Tree.length_preorder, Nat.add_right_comm, Array.append_assoc]

theorem Hydration.foldlM_add_preorder (tree : ParseTree) (state : Hydration) :
    tree.preorder.foldlM (add source) state = do
      let (node, reached) ← copyTree source (state.rows.size + 1) state.reached tree
      return ⟨reached, state.rows ++ node.preorder.toArray⟩ := by
  induction tree using Tree.induct generalizing state with
  | node label children ih =>
      rw [Tree.preorder, List.foldlM_cons, add_eq, copyTree]
      simp only [bind_assoc, pure_bind]
      refine bind_congr fun made => ?_
      rw [foldlM_add_preorderAll children ih]
      simp only [Array.size_push]
      cases copied : copyAll source (state.rows.size + 1 + 1) made.2 children with
      | error fault => rfl
      | ok more =>
          simp [bind, Except.bind, pure, Except.pure, Tree.preorder, length_copyAll copied]

theorem Utf8.decodeRange_all (source : ByteArray) :
    decodeRange source 0 source.size = decode source := by
  rw [decodeRange, ByteArray.extract_zero_size]

theorem hydrate_eq (source : ByteArray) (tree : ParseTree) :
    hydrate source tree = do
      let (nodes, reached) ← copyAll source 1 0 tree.children
      let trail ← Utf8.decodeRange source reached source.size
      return .node { tree.label.inner 0 with slot := none, trail } nodes := by
  rw [hydrate]
  split
  next childless =>
    have none : tree.children = [] := by simpa using childless
    simp only [none, copyAll, pure_bind, Utf8.decodeRange_all]
  next =>
    rw [Tree.toList_rowsFrom, List.nil_append,
      Hydration.foldlM_add_preorderAll _ fun tree _ => Hydration.foldlM_add_preorder tree]
    simp only [bind_assoc, pure_bind]
    refine bind_congr fun copied => bind_congr fun trail => ?_
    have nodes : Tree.forest (Tree.preorderAll copied.1) = copied.1 := by
      rw [Tree.forest, Tree.foldr_gather_preorderAll _ _ fun tree _ => Tree.foldr_gather_preorder tree,
        List.append_nil]
    simp [nodes]

theorem Assembly.add_eq (parent : NodeId) (state : Assembly) (row : ParseLabel × Nat) :
    add source parent state row = do
      let (copy, reached) ← copyLabel source state.store.nextId state.reached row
      return ⟨state.store.grow parent copy, reached⟩ := by
  rw [add, copyLabel]
  split
  next => simp
  next => rfl

def proceed (source : ByteArray) (place : Option (Cursor × List NodeId)) (state : Assembly) :
    Except Utf8.Fault Assembly :=
  match place with
  | none => .ok state
  | some (cursor, parents) => assembleFrom source cursor parents state

theorem assembleFrom_cons (cursor : Cursor) (parent : NodeId) (outer : List NodeId)
    (state : Assembly) :
    assembleFrom source cursor (parent :: outer) state =
      state.add source parent (cursor.focus.label, cursor.focus.children.length) >>=
        proceed source (cursor.advance state.store.nextId (parent :: outer)) := by
  rw [assembleFrom]
  refine bind_congr fun grown => ?_
  split
  next last =>
    rw [last]
    rfl
  next next parents found => rw [found, proceed]

namespace Cursor

def leave (above : List (ParseTree × List ParseTree)) (outer : List NodeId) :
    Option (Cursor × List NodeId) :=
  match above with
  | [] => none
  | (tree, later) :: above => climb ⟨tree, later, above⟩ outer

theorem climb_root (tree : ParseTree) (parents : List NodeId) : climb ⟨tree, [], []⟩ parents = none := by
  induction parents with
  | nil => rfl
  | cons parent outer ih => exact ih

theorem climb_last (tree : ParseTree) (above : List (ParseTree × List ParseTree)) (parent : NodeId)
    (outer : List NodeId) : climb ⟨tree, [], above⟩ (parent :: outer) = leave above outer := by
  cases above with
  | nil => exact climb_root tree outer
  | cons level above => rfl

end Cursor

theorem assembleFrom_siblings (tree : ParseTree) (later : List ParseTree)
    (each : ∀ sibling ∈ tree :: later, ∀ later above parent outer state,
      assembleFrom source ⟨sibling, later, above⟩ (parent :: outer) state =
        copyTree source state.store.nextId state.reached sibling >>= fun (node, reached) =>
          proceed source (Cursor.climb ⟨sibling, later, above⟩ (parent :: outer))
            ⟨hang parent state.store node, reached⟩)
    (above : List (ParseTree × List ParseTree)) (parent : NodeId) (outer : List NodeId)
    (state : Assembly) :
    assembleFrom source ⟨tree, later, above⟩ (parent :: outer) state =
      copyAll source state.store.nextId state.reached (tree :: later) >>= fun (nodes, reached) =>
        proceed source (Cursor.leave above outer) ⟨hangAll parent state.store nodes, reached⟩ := by
  induction later generalizing tree state with
  | nil =>
      rw [each tree List.mem_cons_self, copyAll]
      simp only [bind_assoc, pure_bind, Cursor.climb_last, copyAll, hangAll]
  | cons next rest ih =>
      rw [each tree List.mem_cons_self, copyAll]
      simp only [bind_assoc, pure_bind]
      refine bind_congr fun made => ?_
      have there := ih next (fun sibling member => each sibling (List.mem_cons_of_mem _ member))
        ⟨hang parent state.store made.1, made.2⟩
      simp only [nextId, size_hang] at there
      exact there

-- A walk makes the copy of the subtree at hand and goes on behind it.
theorem assembleFrom_tree (tree : ParseTree) (later : List ParseTree)
    (above : List (ParseTree × List ParseTree)) (parent : NodeId) (outer : List NodeId)
    (state : Assembly) :
    assembleFrom source ⟨tree, later, above⟩ (parent :: outer) state =
      copyTree source state.store.nextId state.reached tree >>= fun (node, reached) =>
        proceed source (Cursor.climb ⟨tree, later, above⟩ (parent :: outer))
          ⟨hang parent state.store node, reached⟩ := by
  induction tree using Tree.induct generalizing later above parent outer state with
  | node label children ih =>
      rw [assembleFrom_cons, Assembly.add_eq, copyTree]
      simp only [bind_assoc, pure_bind]
      refine bind_congr fun made => ?_
      cases children with
      | nil => rfl
      | cons child rest =>
          -- Leaving the children, the walk looks for its next place where it would after a leaf.
          have below := assembleFrom_siblings child rest ih ((.node label (child :: rest), later) :: above)
            state.store.nextId (parent :: outer) ⟨state.store.grow parent made.1, made.2⟩
          simp only [nextId, size_grow] at below
          exact below

theorem assembleFrom_root (label : ParseLabel) (child : ParseTree) (rest : List ParseTree)
    (store : Store) :
    assembleFrom source ⟨child, rest, [(.node label (child :: rest), [])]⟩ [0] ⟨store, 0⟩ =
      copyAll source store.nextId 0 (child :: rest) >>= fun (nodes, reached) =>
        pure ⟨hangAll 0 store nodes, reached⟩ :=
  assembleFrom_siblings child rest (fun sibling _ => assembleFrom_tree sibling) _ _ _ _

theorem assemble_eq (source : ByteArray) (tree : ParseTree) :
    assemble source tree = plant { tree.label.inner 0 with slot := none } <$> hydrate source tree := by
  rw [hydrate_eq]
  obtain ⟨label, _ | ⟨child, rest⟩⟩ := tree
  · simp only [assemble, Cursor.firstChild?, Tree.children_node, copyAll, pure_bind,
      Utf8.decodeRange_all, map_bind, map_pure]
    rfl
  · simp only [assemble, Cursor.firstChild?, Tree.children_node, assembleFrom_root, bind_assoc,
      pure_bind, map_bind, map_pure]
    rfl

end ScriptTyping
