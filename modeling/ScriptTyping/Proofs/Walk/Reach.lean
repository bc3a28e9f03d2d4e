import ScriptTyping.Walk.Visit

set_option autoImplicit false

namespace ScriptTyping

variable {σ : Type} {table : HandlerTable σ}

def Reaches (table : HandlerTable σ) (above : List Label) (tree : Node) (state : σ) (final : Node)
    (after : σ) : Prop :=
  ∀ frames, nearest frames = above → ∃ spent, ∀ steps,
    walkFrom table (spent + steps) (.arriving tree) frames state =
      walkFrom table steps (.done final) frames after

def ReachesAll (table : HandlerTable σ) (above : List Label) (trees : List Node) (state : σ)
    (finals : List Node) (after : σ) : Prop :=
  ∀ child rest, trees = child :: rest → ∀ label frames, (label :: nearest frames).take 2 = above →
    ∀ earlier, ∃ spent, ∀ steps,
      walkFrom table (spent + steps) (.arriving child) (⟨label, earlier, rest⟩ :: frames) state =
        walkFrom table steps (.done (.node label (earlier.reverse ++ finals))) frames after

theorem reachesAll_cons {above : List Label} {tree final : Node} {rest finals : List Node}
    {state middle after : σ} (first : Reaches table above tree state final middle)
    (none : rest = [] → finals = [] ∧ after = middle)
    (later : ReachesAll table above rest middle finals after) :
    ReachesAll table above (tree :: rest) state (final :: finals) after := by
  rintro child others ⟨⟩ label frames same earlier
  obtain ⟨spent, reached⟩ := first (⟨label, earlier, rest⟩ :: frames) (by rw [nearest_cons, same])
  cases rest with
  | nil =>
      obtain ⟨rfl, rfl⟩ := none rfl
      refine ⟨spent + 1, fun steps => ?_⟩
      rw [Nat.add_assoc, reached, Nat.add_comm 1, walkFrom]
      rfl
  | cons next rest =>
      obtain ⟨more, ended⟩ := later next rest rfl label frames same (final :: earlier)
      refine ⟨spent + 1 + more, fun steps => ?_⟩
      rw [Nat.add_assoc, Nat.add_assoc, reached, Nat.add_comm 1, walkFrom]
      simpa using ended steps

theorem reaches_of_visits {above : List Label} {tree final : Node} {state after : σ}
    (visits : Visits table above tree state final after) :
    Reaches table above tree state final after := by
  refine @Visits.rec _ table
    (fun above tree state final after _ => Reaches table above tree state final after)
    (fun above trees state finals after _ => ReachesAll table above trees state finals after ∧
      (trees = [] → finals = [] ∧ after = state)) ?_ ?_ ?_ ?_ _ _ _ _ _ visits
  · intro above tree state present frames _
    refine ⟨1, fun steps => ?_⟩
    rw [Nat.add_comm, walkFrom]
    simp [present]
  · intro above tree state handled after label children finals absent here below ih frames same
    subst same
    cases children with
    | nil =>
        obtain ⟨rfl, rfl⟩ := ih.2 rfl
        refine ⟨1, fun steps => ?_⟩
        rw [Nat.add_comm, walkFrom]
        simp [absent, here]
    | cons child rest =>
        obtain ⟨spent, reached⟩ := ih.1 child rest rfl label frames rfl []
        refine ⟨spent + 1, fun steps => ?_⟩
        rw [Nat.add_right_comm, walkFrom]
        simpa [absent, here] using reached steps
  · intro above state
    exact ⟨fun child rest empty => by simp at empty, fun _ => ⟨rfl, rfl⟩⟩
  · intro above tree final rest finals state middle after first later ih ihs
    exact ⟨reachesAll_cons ih ihs.2 ihs.1, by simp⟩

theorem walk_iff_visits (table : HandlerTable σ) (tree final : Node) (state after : σ) :
    (∃ steps, table.walk steps tree state = ⟨final, after, none⟩) ↔
      Visits table [] tree state final after := by
  constructor
  · rintro ⟨steps, same⟩
    have visits := @visits_of_walk _ table steps tree state (by rw [same])
    rwa [same] at visits
  · intro visits
    obtain ⟨spent, reached⟩ := reaches_of_visits visits [] rfl
    refine ⟨spent + 1, ?_⟩
    rw [HandlerTable.walk, reached, walkFrom]

theorem walkFrom_more (steps more : Nat) (focus : Focus) (frames : List Frame) (state : σ)
    (ended : (walkFrom table steps focus frames state).fault ≠ some .outOfSteps) :
    walkFrom table (steps + more) focus frames state = walkFrom table steps focus frames state := by
  induction steps generalizing focus frames state with
  | zero => exact absurd (walkFrom_zero_fault focus frames state) ended
  | succ steps ih =>
      rw [Nat.add_right_comm]
      cases focus with
      | arriving tree =>
          rw [walkFrom] at ended
          rw [walkFrom, walkFrom]
          split at ended
          next leaf => rw [if_pos leaf, if_pos leaf, ih _ _ _ ended]
          next inner =>
            rw [if_neg inner, if_neg inner]
            generalize applyHandlers (nearest frames) (table.handlersFor tree.kind) tree state =
              outcome at ended ⊢
            obtain ⟨⟨label, children⟩, handled, fault⟩ := outcome
            cases fault with
            | some fault => rfl
            | none =>
                cases children with
                | nil => exact ih _ _ _ ended
                | cons child rest => exact ih _ _ _ ended
      | done tree =>
          cases frames with
          | nil => rfl
          | cons frame frames =>
              rw [walkFrom] at ended
              rw [walkFrom, walkFrom]
              cases pending : frame.pending with
              | nil =>
                  rw [pending] at ended
                  exact ih _ _ _ ended
              | cons child rest =>
                  rw [pending] at ended
                  exact ih _ _ _ ended

theorem walk_of_visits {tree final : Node} {state after : σ} {steps : Nat}
    (visits : Visits table [] tree state final after)
    (ended : (table.walk steps tree state).fault ≠ some .outOfSteps) :
    table.walk steps tree state = ⟨final, after, none⟩ := by
  obtain ⟨enough, same⟩ := (walk_iff_visits table tree final state after).mpr visits
  have longer := walkFrom_more enough steps (.arriving tree) [] state (by
    rw [← HandlerTable.walk, same]
    simp)
  rw [Nat.add_comm, walkFrom_more steps enough _ _ _ ended] at longer
  exact longer.trans same

end ScriptTyping
