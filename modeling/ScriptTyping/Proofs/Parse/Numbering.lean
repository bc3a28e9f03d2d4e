import ScriptTyping.Parse.Hydrate
import ScriptTyping.Proofs.Node.Regular
import ScriptTyping.Proofs.Node.Source
import Mathlib.Data.List.Range

set_option autoImplicit false

namespace ScriptTyping

namespace Tree

variable {α : Type}

theorem labels_forest (rows : List (α × Nat)) :
    ((forest rows).flatMap subtrees).map label = rows.map (·.1) := by
  induction rows with
  | nil => rfl
  | cons row rest ih =>
      have parts : (forest (row :: rest)).flatMap subtrees =
          node row.1 ((forest rest).take row.2) :: (forest rest).flatMap subtrees := by
        rw [forest, List.foldr_cons, gather, List.flatMap_cons, subtrees_node, List.cons_append,
          ← List.flatMap_append, List.take_append_drop]
        rfl
      rw [parts, List.map_cons, label_node, ih, List.map_cons]

theorem row_of_forest (rows : List (α × Nat)) :
    ∀ part ∈ (forest rows).flatMap subtrees,
      ∃ count, (part.label, count) ∈ rows ∧ part.children.length ≤ count := by
  induction rows with
  | nil => simp [forest]
  | cons row rest ih =>
      intro part member
      rw [forest, List.foldr_cons, gather, List.flatMap_cons, subtrees_node, List.cons_append,
        ← List.flatMap_append, List.take_append_drop, List.mem_cons] at member
      rcases member with rfl | below
      · exact ⟨row.2, by simp, List.length_take_le _ _⟩
      · obtain ⟨count, present, bound⟩ := ih part below
        exact ⟨count, by simp [present], bound⟩

end Tree

namespace Hydration

structure Numbered (state : Hydration) : Prop where
  origins : state.rows.toList.map (fun row => row.1.origin) =
    (List.range state.rows.size).map fun place => some (place + 1)
  leafRows : ∀ row ∈ state.rows.toList, row.1.isLeaf = true → row.2 = 0
  trails : ∀ row ∈ state.rows.toList, row.1.trail = ""

theorem numbered_push {state : Hydration} (numbered : Numbered state) {label : Label} {count : Nat}
    (origin : label.origin = some (state.rows.size + 1)) (leaf : label.isLeaf = true → count = 0)
    (trail : label.trail = "") (reached : Nat) :
    Numbered ⟨reached, state.rows.push (label, count)⟩ where
  origins := by simp [List.range_succ, numbered.origins, origin]
  leafRows row member := by
    rcases (by simpa using member : row ∈ state.rows ∨ row = (label, count)) with old | rfl
    · exact numbered.leafRows row (by simpa using old)
    · exact leaf
  trails row member := by
    rcases (by simpa using member : row ∈ state.rows ∨ row = (label, count)) with old | rfl
    · exact numbered.trails row (by simpa using old)
    · exact trail

theorem numbered_add {source : ByteArray} {state after : Hydration} {row : ParseLabel × Nat}
    (numbered : Numbered state) (added : add source state row = .ok after) : Numbered after := by
  unfold add at added
  split at added
  next =>
    obtain ⟨token, -, added⟩ := ok_of_bind added
    obtain ⟨lead, -, added⟩ := ok_of_bind added
    cases added
    exact numbered_push numbered rfl (fun _ => rfl) rfl _
  next =>
    cases added
    exact numbered_push numbered rfl (fun leaf => by cases leaf) rfl _

theorem numbered_foldlM {source : ByteArray} (rows : List (ParseLabel × Nat))
    {state last : Hydration} (numbered : Numbered state)
    (read : rows.foldlM (add source) state = .ok last) : Numbered last := by
  induction rows generalizing state with
  | nil =>
      cases read
      exact numbered
  | cons row rest ih =>
      rw [List.foldlM_cons] at read
      obtain ⟨next, added, read⟩ := ok_of_bind read
      exact ih (numbered_add numbered added) read

end Hydration

theorem hydrate_cases {source : ByteArray} {tree : ParseTree} {root : Node}
    (read : hydrate source tree = .ok root) :
    ∃ label state, root = .node label (Tree.forest state.rows.toList) ∧
      Hydration.Numbered state ∧ label.origin = some 0 ∧ label.isLeaf = false := by
  unfold hydrate at read
  split at read
  next =>
    obtain ⟨trail, -, read⟩ := ok_of_bind read
    cases read
    exact ⟨_, ⟨0, #[]⟩, rfl, ⟨rfl, by simp, by simp⟩, rfl, rfl⟩
  next =>
    obtain ⟨state, rows, read⟩ := ok_of_bind read
    obtain ⟨trail, -, read⟩ := ok_of_bind read
    cases read
    have numbered := Hydration.numbered_foldlM _ ⟨rfl, by simp, by simp⟩ rows
    exact ⟨_, state, rfl, numbered, rfl, rfl⟩

theorem hydrate_regular {source : ByteArray} {tree : ParseTree} {root : Node}
    (read : hydrate source tree = .ok root) : root.Regular := by
  obtain ⟨label, state, rfl, numbered, origin, inner⟩ := hydrate_cases read
  have labels := congrArg (List.map Label.origin) (Tree.labels_forest state.rows.toList)
  rw [List.map_map, List.map_map] at labels
  have origins : ((Tree.forest state.rows.toList).flatMap Tree.subtrees).map
      (fun part => part.label.origin) =
        (List.range state.rows.size).map fun place => some (place + 1) :=
    labels.trans numbered.origins
  have below : ∀ part ∈ (Tree.forest state.rows.toList).flatMap Tree.subtrees,
      ∃ place, part.label.origin = some (place + 1) := by
    intro part member
    have listed := List.mem_map_of_mem (f := fun part : Node => part.label.origin) member
    rw [origins] at listed
    obtain ⟨place, _, same⟩ := List.mem_map.mp listed
    exact ⟨place, same.symm⟩
  constructor
  case numbered =>
    intro part member
    rw [Tree.subtrees_node, List.mem_cons] at member
    rcases member with rfl | lower
    · simp [origin]
    · obtain ⟨place, same⟩ := below part lower
      simp [same]
  case distinct =>
    rw [Tree.subtrees_node, List.map_cons, origins, List.nodup_cons]
    refine ⟨by simp [origin], (List.nodup_range.map fun first second same => ?_)⟩
    simpa using same
  case childless =>
    intro part member leaf
    rw [Tree.subtrees_node, List.mem_cons] at member
    rcases member with rfl | lower
    · exact absurd (inner.symm.trans leaf) (by decide)
    · obtain ⟨count, present, bound⟩ := Tree.row_of_forest _ part lower
      have none := numbered.leafRows _ present leaf
      exact List.eq_nil_of_length_eq_zero (by omega)

theorem hydrate_trailless {source : ByteArray} {tree : ParseTree} {root : Node}
    (read : hydrate source tree = .ok root) : ∀ child ∈ root.children, child.Trailless := by
  obtain ⟨label, state, rfl, numbered, _⟩ := hydrate_cases read
  intro child member part lower
  have listed := List.mem_flatMap.mpr ⟨child, member, lower⟩
  obtain ⟨count, present, _⟩ := Tree.row_of_forest _ part listed
  exact numbered.trails _ present

theorem readParse_regular {source : String} {tree : ParseTree} {root : Node}
    (read : readParse source tree = .ok root) :
    root.Regular ∧ ∀ child ∈ root.children, child.Trailless := by
  have hydrated := hydrate_of_readParse read
  exact ⟨hydrate_regular hydrated, hydrate_trailless hydrated⟩

end ScriptTyping
