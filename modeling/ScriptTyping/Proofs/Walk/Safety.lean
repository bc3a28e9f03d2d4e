import ScriptTyping.Walk.Basic

set_option autoImplicit false

namespace ScriptTyping

structure Safe {σ : Type} (table : HandlerTable σ) (holds : Node → Prop) : Prop where
  below : ∀ tree, holds tree → ∀ child ∈ tree.children, holds child
  keeps : ∀ handler ∈ table, ∀ above tree state, tree.kind ∈ handler.kinds → holds tree →
    (handler.handle above tree state).fault = none ∧
      (handler.handle above tree state).tree.kind = tree.kind ∧
      holds (handler.handle above tree state).tree

namespace Safe

variable {σ : Type} {table : HandlerTable σ} {holds : Node → Prop}

theorem subset {fewer : HandlerTable σ} (safe : Safe table holds)
    (among : ∀ handler ∈ fewer, handler ∈ table) : Safe fewer holds where
  below := safe.below
  keeps handler member := safe.keeps handler (among handler member)

theorem applyHandlers_safe (safe : Safe table holds) (above : List Label) (tree : Node) (state : σ)
    (called : ∀ handler ∈ table, tree.kind ∈ handler.kinds) (here : holds tree) :
    (applyHandlers above table tree state).fault = none ∧
      holds (applyHandlers above table tree state).tree := by
  induction table generalizing tree state with
  | nil => exact ⟨rfl, here⟩
  | cons handler rest ih =>
      obtain ⟨complete, kind, kept⟩ :=
        safe.keeps handler (by simp) above tree state (called handler (by simp)) here
      rw [applyHandlers]
      simp only [complete]
      refine ih (safe.subset fun other member => by simp [member]) _ _ ?_ kept
      intro other member
      rw [kind]
      exact called other (by simp [member])

theorem walkFrom_safe (safe : Safe table holds) (steps : Nat) (focus : Focus) (frames : List Frame)
    (state : σ) (here : ∀ tree, focus = .arriving tree → holds tree)
    (later : ∀ frame ∈ frames, ∀ tree ∈ frame.pending, holds tree) :
    (walkFrom table steps focus frames state).fault = none ∨
      (walkFrom table steps focus frames state).fault = some .outOfSteps := by
  -- Everything that the walk has yet to visit has the property.
  induction steps generalizing focus frames state with
  | zero => exact .inr rfl
  | succ steps ih =>
      cases focus with
      | arriving tree =>
          rw [walkFrom]
          split
          next => exact ih (.done tree) frames state (by simp) later
          next =>
            have called : Safe (table.handlersFor tree.kind) holds :=
              safe.subset fun handler member => (List.mem_filter.mp member).1
            have applied := called.applyHandlers_safe (nearest frames) tree state
              (fun handler member => by simpa using (List.mem_filter.mp member).2) (here tree rfl)
            generalize applyHandlers (nearest frames) (table.handlersFor tree.kind) tree state =
              outcome at applied ⊢
            obtain ⟨⟨label, children⟩, handled, fault⟩ := outcome
            obtain ⟨rfl, kept⟩ := applied
            have below := safe.below _ kept
            cases children with
            | nil => exact ih _ frames handled (by simp) later
            | cons child rest =>
                refine ih (.arriving child) _ handled ?_ ?_
                · rintro tree ⟨⟩
                  exact below child (by simp)
                · intro frame member tree pending
                  rcases List.mem_cons.mp member with rfl | earlier
                  · exact below tree (by simp [show tree ∈ rest from pending])
                  · exact later frame earlier tree pending
      | done tree =>
          cases frames with
          | nil => exact .inl rfl
          | cons frame frames =>
              rw [walkFrom]
              have others : ∀ other ∈ frames, ∀ tree ∈ other.pending, holds tree :=
                fun other member => later other (by simp [member])
              cases pending : frame.pending with
              | nil => exact ih _ frames state (by simp) others
              | cons child rest =>
                  have waiting := later frame (by simp)
                  rw [pending] at waiting
                  refine ih (.arriving child) _ state ?_ ?_
                  · rintro tree ⟨⟩
                    exact waiting child (by simp)
                  · intro other member tree present
                    rcases List.mem_cons.mp member with rfl | earlier
                    · exact waiting tree (by simp [show tree ∈ rest from present])
                    · exact others other earlier tree present

theorem walk_safe (safe : Safe table holds) (steps : Nat) {tree : Node} (here : holds tree)
    (state : σ) :
    (table.walk steps tree state).fault = none ∨
      (table.walk steps tree state).fault = some .outOfSteps := by
  refine safe.walkFrom_safe steps (.arriving tree) [] state ?_ (by simp)
  rintro other ⟨⟩
  exact here

end Safe

end ScriptTyping
