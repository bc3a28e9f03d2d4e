import ScriptTyping.Walk.Basic

set_option autoImplicit false

namespace ScriptTyping

variable {σ : Type} {table : HandlerTable σ} {related : σ → σ → Prop}
  (refl : ∀ state, related state state)
  (trans : ∀ first second third, related first second → related second third → related first third)

include refl trans

theorem applyHandlers_related
    (each : ∀ handler ∈ table, ∀ above tree state,
      related state (handler.handle above tree state).state)
    (above : List Label) (tree : Node) (state : σ) :
    related state (applyHandlers above table tree state).state := by
  induction table generalizing tree state with
  | nil => exact refl state
  | cons handler rest ih =>
      have here := each handler (by simp) above tree state
      rw [applyHandlers]
      split
      · exact here
      · exact trans _ _ _ here (ih (fun other member => each other (by simp [member])) _ _)

theorem walkFrom_related
    (each : ∀ handler ∈ table, ∀ above tree state,
      related state (handler.handle above tree state).state)
    (steps : Nat) (focus : Focus) (frames : List Frame) (state : σ) :
    related state (walkFrom table steps focus frames state).state := by
  induction steps generalizing focus frames state with
  | zero => exact refl state
  | succ steps ih =>
      cases focus with
      | arriving tree =>
          have called := @applyHandlers_related _ (table.handlersFor tree.kind) _ refl trans
            (fun handler member => each handler (List.mem_filter.mp member).1) (nearest frames) tree
            state
          rw [walkFrom]
          split
          · exact ih _ _ _
          · generalize applyHandlers (nearest frames) (table.handlersFor tree.kind) tree state =
              outcome at called ⊢
            obtain ⟨⟨label, children⟩, handled, fault⟩ := outcome
            cases fault with
            | some fault => exact called
            | none =>
                cases children with
                | nil => exact trans _ _ _ called (ih _ _ _)
                | cons child rest => exact trans _ _ _ called (ih _ _ _)
      | done tree =>
          cases frames with
          | nil => exact refl state
          | cons frame frames =>
              rw [walkFrom]
              cases frame.pending with
              | nil => exact ih _ _ _
              | cons child rest => exact ih _ _ _

theorem walk_related
    (each : ∀ handler ∈ table, ∀ above tree state,
      related state (handler.handle above tree state).state)
    (steps : Nat) (tree : Node) (state : σ) : related state (table.walk steps tree state).state :=
  walkFrom_related refl trans each steps (.arriving tree) [] state

end ScriptTyping
