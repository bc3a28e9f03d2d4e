import ScriptTyping.Proofs.Parse.Assembly
import ScriptTyping.Proofs.Parse.Lossless

set_option autoImplicit false

namespace ScriptTyping

open ScriptTyping.Store

variable {source : ByteArray}

def furthest (rows : List (ParseLabel × Nat)) : Nat := ((leafRows rows).map (·.stop)).foldl max 0

theorem furthest_append_leaf (rows : List (ParseLabel × Nat)) (label : ParseLabel) :
    furthest (rows ++ [(label, 0)]) = max (furthest rows) label.stop := by
  simp [furthest, leafRows]

theorem furthest_append_inner (rows : List (ParseLabel × Nat)) (label : ParseLabel) {count : Nat}
    (some : count ≠ 0) : furthest (rows ++ [(label, count)]) = furthest rows := by
  simp [furthest, leafRows, some]

structure CopiesRow (source : ByteArray) (earlier : List (ParseLabel × Nat)) (row : ParseLabel × Nat)
    (copy : Label × Nat) : Prop where
  kind : copy.1.kind = row.1.kind
  slot : copy.1.slot = row.1.slot
  count : copy.2 = row.2
  leaf : copy.1.isLeaf = true ↔ row.2 = 0
  token : row.2 = 0 → ∃ token, copy.1.token = some token ∧
    Utf8.decodeRange source row.1.start row.1.stop = .ok token
  lead : row.2 = 0 → Utf8.decodeRange source (furthest earlier) row.1.start = .ok copy.1.lead
  past : row.1.start ≤ furthest earlier → copy.1.lead = ""
  bare : row.2 ≠ 0 → copy.1.lead = ""
  trail : copy.1.trail = ""

theorem Utf8.eq_empty_of_decodeRange {start stop : Nat} {text : String} (past : stop ≤ start)
    (read : decodeRange source start stop = .ok text) : text = "" := by
  have bytes := toUTF8_decodeRange read
  rw [ByteArray.extract_eq_empty_iff.mpr (by omega), String.toUTF8_eq_toByteArray] at bytes
  exact String.toByteArray_eq_empty_iff.mp bytes

theorem copiesRow_copyLabel {number last : Nat} {earlier : List (ParseLabel × Nat)}
    {row : ParseLabel × Nat} {copy : Label}
    (copied : copyLabel source number (furthest earlier) row = .ok (copy, last)) :
    CopiesRow source earlier row (copy, row.2) ∧ last = furthest (earlier ++ [row]) := by
  obtain ⟨label, count⟩ := row
  rw [copyLabel] at copied
  split at copied
  next childless =>
    obtain rfl : count = 0 := childless
    obtain ⟨token, text, copied⟩ := ok_of_bind copied
    obtain ⟨lead, before, copied⟩ := ok_of_bind copied
    cases copied
    exact ⟨⟨rfl, rfl, rfl, by simp [Label.isLeaf], fun _ => ⟨token, rfl, text⟩, fun _ => before,
      fun past => Utf8.eq_empty_of_decodeRange past before, fun some => absurd rfl some, rfl⟩,
      (furthest_append_leaf _ _).symm⟩
  next children =>
    cases copied
    have some : count ≠ 0 := children
    exact ⟨⟨rfl, rfl, rfl, by simp [Label.isLeaf, ParseLabel.inner, some],
      fun childless => absurd childless some, fun childless => absurd childless some, fun _ => rfl,
      fun _ => rfl, rfl⟩, (furthest_append_inner _ _ some).symm⟩

namespace Hydration

structure Tracks (source : ByteArray) (earlier : List (ParseLabel × Nat)) (state : Hydration) :
    Prop where
  reached : state.reached = furthest earlier
  size : state.rows.size = earlier.length
  copies : ∀ place row copy, earlier[place]? = some row → state.rows[place]? = some copy →
    CopiesRow source (earlier.take place) row copy

theorem Tracks.add {earlier : List (ParseLabel × Nat)} {state after : Hydration}
    {row : ParseLabel × Nat} (tracks : Tracks source earlier state)
    (added : add source state row = .ok after) : Tracks source (earlier ++ [row]) after := by
  rw [add_eq, tracks.reached] at added
  obtain ⟨⟨copy, last⟩, copied, added⟩ := ok_of_bind added
  obtain ⟨copies, rfl⟩ := copiesRow_copyLabel copied
  cases added
  refine ⟨rfl, by simp [tracks.size], fun place given made here there => ?_⟩
  rw [Array.getElem?_push, tracks.size] at there
  by_cases new : place = earlier.length
  · subst new
    simp only [List.getElem?_concat_length, Option.some.injEq, if_true] at here there
    subst here there
    simpa using copies
  · rw [if_neg new] at there
    have old : place < earlier.length := by
      have bound := (List.getElem?_eq_some_iff.mp here).1
      simp only [List.length_append, List.length_singleton] at bound
      omega
    rw [List.getElem?_append_left old] at here
    rw [List.take_append_of_le_length (Nat.le_of_lt old)]
    exact tracks.copies place given made here there

theorem Tracks.foldlM {rows earlier : List (ParseLabel × Nat)} {state last : Hydration}
    (tracks : Tracks source earlier state)
    (read : rows.foldlM (Hydration.add source) state = .ok last) :
    Tracks source (earlier ++ rows) last := by
  induction rows generalizing earlier state with
  | nil =>
      cases read
      simpa using tracks
  | cons row rest ih =>
      rw [List.foldlM_cons] at read
      obtain ⟨next, added, read⟩ := ok_of_bind read
      simpa using ih (tracks.add added) read

theorem Tracks.copy {earlier : List (ParseLabel × Nat)} {state : Hydration}
    (tracks : Tracks source earlier state) {place : Nat} {row : ParseLabel × Nat}
    (here : earlier[place]? = some row) :
    ∃ copy, state.rows[place]? = some copy ∧ CopiesRow source (earlier.take place) row copy := by
  have within : place < state.rows.size := by
    rw [tracks.size]
    exact (List.getElem?_eq_some_iff.mp here).1
  have there := Array.getElem?_eq_getElem within
  exact ⟨_, there, tracks.copies place row _ here there⟩

theorem Tracks.shape {earlier : List (ParseLabel × Nat)} {state : Hydration}
    (tracks : Tracks source earlier state) :
    state.rows.toList.map (fun row => (row.1.kind, row.2)) =
      earlier.map fun row => (row.1.kind, row.2) := by
  refine List.ext_getElem (by simp [tracks.size]) fun place left right => ?_
  simp only [List.length_map] at left right
  obtain ⟨copy, there, copies⟩ := tracks.copy (List.getElem?_eq_getElem right)
  obtain ⟨_, rfl⟩ := Array.getElem?_eq_some_iff.mp there
  simp only [List.getElem_map, Array.getElem_toList, copies.kind, copies.count]

end Hydration

structure Copies (source : ByteArray) (tree : ParseTree) (root : Node) : Prop where
  shape : root.preorder.map (fun row => (row.1.kind, row.2)) =
    tree.preorder.map fun row => (row.1.kind, row.2)
  rows : ∀ place row, (Tree.preorderAll tree.children)[place]? = some row →
    ∃ copy, (Tree.preorderAll root.children)[place]? = some copy ∧
      CopiesRow source ((Tree.preorderAll tree.children).take place) row copy
  inner : root.isLeaf = false
  trail : Utf8.decodeRange source (furthest (Tree.preorderAll tree.children)) source.size =
    .ok root.label.trail

theorem hydrate_copies {tree : ParseTree} {root : Node} (read : hydrate source tree = .ok root) :
    Copies source tree root := by
  obtain ⟨label, children⟩ := tree
  rw [hydrate_eq] at read
  obtain ⟨⟨nodes, reached⟩, copied, read⟩ := ok_of_bind read
  obtain ⟨trail, rest, read⟩ := ok_of_bind read
  cases read
  have walked : (Tree.preorderAll children).foldlM (Hydration.add source) ⟨0, #[]⟩ =
      .ok ⟨reached, (Tree.preorderAll nodes).toArray⟩ := by
    rw [Hydration.foldlM_add_preorderAll _ fun child _ => Hydration.foldlM_add_preorder child]
    simp only [Tree.children_node] at copied
    simp [copied, bind, Except.bind, pure, Except.pure]
  have started : Hydration.Tracks source [] ⟨0, #[]⟩ := ⟨rfl, rfl, by simp⟩
  have tracks := started.foldlM walked
  rw [List.nil_append] at tracks
  have count := length_copyAll copied
  refine ⟨?_, fun place row here => ?_, rfl, tracks.reached ▸ rest⟩
  · have shape := tracks.shape
    simp only [Tree.children_node] at count
    simpa [Tree.preorder, count, ParseLabel.inner] using shape
  · obtain ⟨copy, there, copies⟩ := tracks.copy here
    exact ⟨copy, by simpa using there, copies⟩

/-- The linked tree of a parse is a copy of it, and each of its nodes is linked with the node whose list of
children holds it. -/
theorem assemble_copies {source : ByteArray} {tree : ParseTree} {store : Store}
    (assembled : assemble source tree = .ok store) :
    ∃ root, hydrate source tree = .ok root ∧ store.toNode 0 = root ∧ Copies source tree root ∧
      store.Holds root := by
  rw [assemble_eq] at assembled
  cases read : hydrate source tree with
  | error fault => simp [read, Functor.map, Except.map] at assembled
  | ok root =>
      simp only [read, Functor.map, Except.map, Except.ok.injEq] at assembled
      have holds := assembled ▸ holds_plant _ root
      exact ⟨root, rfl, holds.toNode, hydrate_copies read, holds⟩

def overlapping : ParseTree :=
  .node ⟨"program", 0, 4, none, false, false, false⟩ [
    .node ⟨"pair", 0, 2, none, false, false, false⟩ [
      .node ⟨"word", 0, 2, some "key", false, false, false⟩ [],
      .node ⟨"word", 1, 2, some "value", false, false, false⟩ []],
    .node ⟨"block", 2, 2, some "body", false, false, false⟩ [],
    .node ⟨"word", 3, 4, none, false, false, false⟩ []]

def overlappingRead : Node :=
  .node ⟨"program", none, none, "", "", some 0⟩ [
    .node ⟨"pair", none, none, "", "", some 1⟩ [
      .node ⟨"word", some "key", some "ab", "", "", some 2⟩ [],
      .node ⟨"word", some "value", some "b", "", "", some 3⟩ []],
    .node ⟨"block", some "body", some "", "", "", some 4⟩ [],
    .node ⟨"word", none, some "c", " ", "", some 5⟩ []]

theorem assemble_copies_overlapping :
    ∃ store, assemble "ab c".toUTF8 overlapping = .ok store ∧ store.toNode 0 = overlappingRead ∧
      Copies "ab c".toUTF8 overlapping overlappingRead ∧ store.Holds overlappingRead := by
  have read : hydrate "ab c".toUTF8 overlapping = .ok overlappingRead := by
    rw [hydrate_eq]
    rfl
  have assembled : assemble "ab c".toUTF8 overlapping =
      .ok (plant { overlapping.label.inner 0 with slot := none } overlappingRead) := by
    rw [assemble_eq, read]
    rfl
  obtain ⟨root, again, shown, copies, holds⟩ := assemble_copies assembled
  obtain rfl : overlappingRead = root := Except.ok.inj (read.symm.trans again)
  exact ⟨_, assembled, shown, copies, holds⟩

end ScriptTyping
