import ScriptTyping.Walk.Visit

set_option autoImplicit false

namespace ScriptTyping

-- At every node that a walk comes to, the handlers only change the state, in a way that does not
-- count.
inductive Rests {σ : Type} (table : HandlerTable σ) (quiet : σ → σ → Prop) :
    List Label → Node → Prop where
  | leaf {above : List Label} {tree : Node} (present : tree.isLeaf = true) :
      Rests table quiet above tree
  | inner {above : List Label} {tree : Node} (absent : tree.isLeaf = false)
      (here : ∀ state, ∃ after, quiet state after ∧
        applyHandlers above (table.handlersFor tree.kind) tree state = ⟨tree, after, none⟩)
      (below : ∀ child ∈ tree.children, Rests table quiet ((tree.label :: above).take 2) child) :
      Rests table quiet above tree

namespace Rests

variable {σ : Type} {table : HandlerTable σ} {quiet : σ → σ → Prop}
  (refl : ∀ state, quiet state state)
  (trans : ∀ first second third, quiet first second → quiet second third → quiet first third)

def Passes (table : HandlerTable σ) (quiet : σ → σ → Prop) (frames : List Frame) (tree : Node) :
    Prop :=
  ∀ state, ∃ spent after, spent + 1 ≤ 2 * tree.size ∧ quiet state after ∧
    ∀ steps, walkFrom table (spent + steps) (.arriving tree) frames state =
      walkFrom table steps (.done tree) frames after

include trans in
theorem passes_children (label : Label) (frames : List Frame) (rest : List Node) :
    ∀ (child : Node) (earlier : List Node) (state : σ),
      (∀ part ∈ child :: rest, ∀ frame : Frame, frame.label = label →
        Passes table quiet (frame :: frames) part) →
      ∃ spent after, spent ≤ 2 * Tree.sizeAll (child :: rest) ∧ quiet state after ∧
        ∀ steps, walkFrom table (spent + steps) (.arriving child)
            (⟨label, earlier, rest⟩ :: frames) state =
          walkFrom table steps (.done (.node label (earlier.reverse ++ child :: rest))) frames
            after := by
  induction rest with
  | nil =>
      intro child earlier state each
      obtain ⟨spent, after, bound, calm, same⟩ := each child (by simp) ⟨label, earlier, []⟩ rfl state
      refine ⟨spent + 1, after, by simp [Tree.sizeAll]; omega, calm, fun steps => ?_⟩
      rw [Nat.add_assoc, same, Nat.add_comm 1 steps, walkFrom]
      rfl
  | cons next rest ih =>
      intro child earlier state each
      obtain ⟨spent, middle, bound, calm, same⟩ :=
        each child (by simp) ⟨label, earlier, next :: rest⟩ rfl state
      obtain ⟨more, after, limit, later, equal⟩ := ih next (child :: earlier) middle
        fun part member => each part (by simp [List.mem_cons.mp member])
      refine ⟨spent + 1 + more, after, ?_, trans _ _ _ calm later, fun steps => ?_⟩
      · simp only [Tree.sizeAll] at limit ⊢
        omega
      · have moved := equal steps
        rw [List.reverse_cons, List.append_assoc] at moved
        rw [Nat.add_assoc, Nat.add_assoc, same, Nat.add_comm 1, walkFrom]
        exact moved

include refl trans in
theorem passes {tree : Node} : ∀ frames, Rests table quiet (nearest frames) tree →
    Passes table quiet frames tree := by
  induction tree using Tree.induct with
  | node label children ih =>
      intro frames rests state
      cases rests with
      | leaf present =>
          refine ⟨1, state, by simp only [Tree.size]; omega, refl state, fun steps => ?_⟩
          rw [Nat.add_comm, walkFrom]
          simp [present]
      | inner absent here below =>
          obtain ⟨middle, calm, same⟩ := here state
          cases children with
          | nil =>
              refine ⟨1, middle, by simp only [Tree.size]; omega, calm, fun steps => ?_⟩
              rw [Nat.add_comm, walkFrom]
              simp [absent, same]
          | cons child rest =>
              obtain ⟨spent, after, bound, later, equal⟩ :=
                passes_children trans label frames rest child [] middle
                  fun part member frame equal => by
                    refine ih part member (frame :: frames) ?_
                    rw [nearest_cons, equal]
                    exact below part member
              refine ⟨spent + 1, after, by simp only [Tree.size]; omega, trans _ _ _ calm later,
                fun steps => ?_⟩
              rw [show spent + 1 + steps = spent + steps + 1 by omega, walkFrom]
              simp only [absent, Bool.false_eq_true, if_false, same]
              exact equal steps

include refl trans in
theorem walk_of_rests {tree : Node} (rests : Rests table quiet [] tree) (steps : Nat)
    (enough : 2 * tree.size ≤ steps) (state : σ) :
    ∃ after, quiet state after ∧ table.walk steps tree state = ⟨tree, after, none⟩ := by
  obtain ⟨spent, after, bound, calm, same⟩ := passes refl trans [] rests state
  refine ⟨after, calm, ?_⟩
  have split : steps = spent + ((steps - spent - 1) + 1) := by omega
  rw [HandlerTable.walk, split, same, walkFrom]

end Rests

end ScriptTyping
