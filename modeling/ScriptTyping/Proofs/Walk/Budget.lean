import ScriptTyping.Walk.Visit

set_option autoImplicit false

namespace ScriptTyping

def total (weight : Node → Nat) : List Node → Nat
  | [] => 0
  | tree :: rest => weight tree + total weight rest

structure Bounded {σ : Type} (table : HandlerTable σ) (weight : Node → Nat) : Prop where
  below : ∀ label children, total weight children < weight (.node label children)
  keeps : ∀ handler ∈ table, ∀ above tree state, tree.kind ∈ handler.kinds →
    (handler.handle above tree state).fault = none →
      (handler.handle above tree state).tree.kind = tree.kind ∧
        weight (handler.handle above tree state).tree ≤ weight tree
  stops : ∀ handler ∈ table, ∀ above tree state,
    (handler.handle above tree state).fault ≠ some .outOfSteps

-- A node that is still to be visited counts twice, for its arrival and for its end.
def pendingRank (weight : Node → Nat) : List Frame → Nat
  | [] => 0
  | frame :: frames => 1 + 2 * total weight frame.pending + pendingRank weight frames

def rank (weight : Node → Nat) (frames : List Frame) : Focus → Nat
  | .arriving tree => 2 * weight tree + pendingRank weight frames
  | .done _ => 1 + pendingRank weight frames

namespace Bounded

variable {σ : Type} {table : HandlerTable σ} {weight : Node → Nat}

theorem subset {fewer : HandlerTable σ} (bounded : Bounded table weight)
    (among : ∀ handler ∈ fewer, handler ∈ table) : Bounded fewer weight where
  below := bounded.below
  keeps handler member := bounded.keeps handler (among handler member)
  stops handler member := bounded.stops handler (among handler member)

theorem positive (bounded : Bounded table weight) (tree : Node) : 0 < weight tree := by
  obtain ⟨label, children⟩ := tree
  exact Nat.zero_lt_of_lt (bounded.below label children)

theorem applyHandlers_keeps (bounded : Bounded table weight) (above : List Label) (tree : Node)
    (state : σ) (called : ∀ handler ∈ table, tree.kind ∈ handler.kinds)
    (complete : (applyHandlers above table tree state).fault = none) :
    weight (applyHandlers above table tree state).tree ≤ weight tree := by
  induction table generalizing tree state with
  | nil => exact Nat.le_refl _
  | cons handler rest ih =>
      rw [applyHandlers] at complete ⊢
      cases fault : (handler.handle above tree state).fault with
      | some other => simp [fault] at complete
      | none =>
          simp only [fault] at complete ⊢
          obtain ⟨kind, less⟩ :=
            bounded.keeps handler (by simp) above tree state (called handler (by simp)) fault
          have later := ih (bounded.subset fun other member => by simp [member]) _ _
            (fun other member => by rw [kind]; exact called other (by simp [member])) complete
          exact Nat.le_trans later less

theorem applyHandlers_stops (bounded : Bounded table weight) (above : List Label) (tree : Node)
    (state : σ) : (applyHandlers above table tree state).fault ≠ some .outOfSteps := by
  induction table generalizing tree state with
  | nil => simp [applyHandlers]
  | cons handler rest ih =>
      rw [applyHandlers]
      cases fault : (handler.handle above tree state).fault with
      | some other =>
          simp only
          exact bounded.stops handler (by simp) above tree state
      | none =>
          simp only
          exact ih (bounded.subset fun other member => by simp [member]) _ _

theorem walkFrom_in_budget (bounded : Bounded table weight) (steps : Nat) (focus : Focus)
    (frames : List Frame) (state : σ) (enough : rank weight frames focus ≤ steps) :
    (walkFrom table steps focus frames state).fault ≠ some .outOfSteps := by
  induction steps generalizing focus frames state with
  | zero =>
      cases focus with
      | arriving tree =>
          have present := bounded.positive tree
          simp only [rank] at enough
          omega
      | done tree =>
          simp only [rank] at enough
          omega
  | succ steps ih =>
      cases focus with
      | arriving tree =>
          have present := bounded.positive tree
          simp only [rank] at enough
          rw [walkFrom]
          split
          next => exact ih (.done tree) frames state (by simp only [rank]; omega)
          next =>
            have called : Bounded (table.handlersFor tree.kind) weight :=
              bounded.subset fun handler member => (List.mem_filter.mp member).1
            have stops := called.applyHandlers_stops (nearest frames) tree state
            have keeps := called.applyHandlers_keeps (nearest frames) tree state
              fun handler member => by simpa using (List.mem_filter.mp member).2
            generalize applyHandlers (nearest frames) (table.handlersFor tree.kind) tree state =
              outcome at stops keeps ⊢
            obtain ⟨⟨label, children⟩, handled, fault⟩ := outcome
            cases fault with
            | some fault => exact stops
            | none =>
                have shrinks : weight (.node label children) ≤ weight tree := keeps rfl
                have below := bounded.below label children
                cases children with
                | nil => exact ih _ frames handled (by simp only [rank]; omega)
                | cons child rest =>
                    refine ih (.arriving child) _ handled ?_
                    simp only [total] at below
                    simp only [rank, pendingRank]
                    omega
      | done tree =>
          simp only [rank] at enough
          cases frames with
          | nil => simp [walkFrom]
          | cons frame frames =>
              rw [walkFrom]
              simp only [pendingRank] at enough
              cases pending : frame.pending with
              | nil => exact ih _ frames state (by simp only [rank]; omega)
              | cons child rest =>
                  refine ih (.arriving child) _ state ?_
                  simp only [pending, total] at enough
                  simp only [rank, pendingRank]
                  omega

theorem walk_in_budget (bounded : Bounded table weight) {steps : Nat} {tree : Node}
    (enough : 2 * weight tree ≤ steps) (state : σ) :
    (table.walk steps tree state).fault ≠ some .outOfSteps :=
  bounded.walkFrom_in_budget steps (.arriving tree) [] state
    (by simpa [rank, pendingRank] using enough)

end Bounded

end ScriptTyping
