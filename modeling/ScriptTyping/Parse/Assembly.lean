import ScriptTyping.Parse.Hydrate
import ScriptTyping.Store.Basic

set_option autoImplicit false

namespace ScriptTyping

-- A place in a tree. The siblings behind it are still to come, and so are those behind the nodes
-- above.
structure Cursor where
  focus : ParseTree
  later : List ParseTree
  above : List (ParseTree × List ParseTree)

namespace Cursor

def firstChild? (cursor : Cursor) : Option Cursor :=
  match cursor.focus.children with
  | [] => none
  | child :: rest => some ⟨child, rest, (cursor.focus, cursor.later) :: cursor.above⟩

def nextSibling? (cursor : Cursor) : Option Cursor :=
  match cursor.later with
  | [] => none
  | next :: rest => some ⟨next, rest, cursor.above⟩

def upper (cursor : Cursor) : Cursor :=
  match cursor.above with
  | [] => cursor
  | (tree, later) :: above => ⟨tree, later, above⟩

def behind (cursor : Cursor) : List ParseTree := cursor.later ++ cursor.above.flatMap (·.2)

def pending (cursor : Cursor) : Nat := cursor.focus.size + Tree.sizeAll cursor.behind

-- The next sibling, or that of the nearest node above which has one. Each step up closes a parent, and with
-- the last one the walk is over.
def climb (cursor : Cursor) (parents : List NodeId) : Option (Cursor × List NodeId) :=
  match parents with
  | [] => none
  | _ :: outer =>
      match cursor.nextSibling? with
      | some next => some (next, parents)
      | none => cursor.upper.climb outer

def advance (cursor : Cursor) (id : NodeId) (parents : List NodeId) : Option (Cursor × List NodeId) :=
  match cursor.firstChild? with
  | some child => some (child, id :: parents)
  | none => cursor.climb parents

theorem sizeAll_behind_upper (cursor : Cursor) :
    Tree.sizeAll cursor.upper.behind ≤ Tree.sizeAll cursor.behind := by
  obtain ⟨focus, later, _ | ⟨⟨tree, rest⟩, above⟩⟩ := cursor
  · exact Nat.le_refl _
  · simp [upper, behind, Tree.sizeAll_append]

theorem pending_of_climb {cursor next : Cursor} {parents outer : List NodeId}
    (climbed : cursor.climb parents = some (next, outer)) :
    next.pending ≤ Tree.sizeAll cursor.behind := by
  fun_induction climb cursor parents with
  | case1 => cases climbed
  | case2 cursor parent outer sibling found =>
      obtain ⟨focus, _ | ⟨first, rest⟩, above⟩ := cursor
      · cases found
      · cases found
        cases climbed
        simp [pending, behind, Tree.sizeAll]
  | case3 cursor parent outer last ih =>
      exact Nat.le_trans (ih climbed) (sizeAll_behind_upper cursor)

theorem pending_of_advance {cursor next : Cursor} {id : NodeId} {parents outer : List NodeId}
    (advanced : cursor.advance id parents = some (next, outer)) : next.pending < cursor.pending := by
  obtain ⟨⟨label, _ | ⟨child, rest⟩⟩, later, above⟩ := cursor
  · have climbed := pending_of_climb advanced
    simp only [pending, Tree.size] at climbed ⊢
    omega
  · cases advanced
    simp [pending, behind, Tree.size, Tree.sizeAll, Tree.sizeAll_append]
    omega

end Cursor

def Store.grow (parent : NodeId) (store : Store) (label : Label) : Store :=
  append parent (store.alloc label []) store.nextId

structure Assembly where
  store : Store
  reached : Nat

def Assembly.add (source : ByteArray) (parent : NodeId) (state : Assembly) (row : ParseLabel × Nat) :
    Except Utf8.Fault Assembly := do
  let label := row.1
  let inner := label.inner state.store.nextId
  if row.2 = 0 then
    let token ← Utf8.decodeRange source label.start label.stop
    let lead ← Utf8.decodeRange source state.reached label.start
    let leaf := { inner with token := some token, lead }
    return ⟨state.store.grow parent leaf, max state.reached label.stop⟩
  else
    return ⟨state.store.grow parent inner, state.reached⟩

def assembleFrom (source : ByteArray) (cursor : Cursor) (parents : List NodeId) (state : Assembly) :
    Except Utf8.Fault Assembly := do
  match parents with
  | [] => return state
  | parent :: _ =>
      let row := (cursor.focus.label, cursor.focus.children.length)
      let grown ← state.add source parent row
      match _ : cursor.advance state.store.nextId parents with
      | none => return grown
      | some (next, outer) => assembleFrom source next outer grown
termination_by cursor.pending
decreasing_by exact Cursor.pending_of_advance ‹_›

def assemble (source : ByteArray) (tree : ParseTree) : Except Utf8.Fault Store := do
  let root := { tree.label.inner 0 with slot := none }
  let store := Store.empty.alloc root []
  match (Cursor.mk tree [] []).firstChild? with
  | none =>
      let trail ← Utf8.decode source
      return store.setLabel 0 { root with trail }
  | some child =>
      let state ← assembleFrom source child [0] ⟨store, 0⟩
      let trail ← Utf8.decodeRange source state.reached source.size
      return state.store.setLabel 0 { root with trail }

end ScriptTyping
