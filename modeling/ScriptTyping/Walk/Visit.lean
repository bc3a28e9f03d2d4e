import ScriptTyping.Walk.Basic

set_option autoImplicit false

namespace ScriptTyping

mutual

-- A node below the given labels is visited. A leaf stays as it is. At any other node the handlers
-- for its kind are run, and then the children that it has after them are visited.
inductive Visits {σ : Type} (table : HandlerTable σ) :
    List Label → Node → σ → Node → σ → Prop where
  | leaf {above : List Label} {tree : Node} {state : σ} (present : tree.isLeaf = true) :
      Visits table above tree state tree state
  | inner {above : List Label} {tree : Node} {state handled after : σ} {label : Label}
      {children visited : List Node} (absent : tree.isLeaf = false)
      (here : applyHandlers above (table.handlersFor tree.kind) tree state =
        ⟨.node label children, handled, none⟩)
      (below : VisitsAll table ((label :: above).take 2) children handled visited after) :
      Visits table above tree state (.node label visited) after

inductive VisitsAll {σ : Type} (table : HandlerTable σ) :
    List Label → List Node → σ → List Node → σ → Prop where
  | nil {above : List Label} {state : σ} : VisitsAll table above [] state [] state
  | cons {above : List Label} {tree visited : Node} {rest others : List Node}
      {state middle after : σ} (first : Visits table above tree state visited middle)
      (later : VisitsAll table above rest middle others after) :
      VisitsAll table above (tree :: rest) state (visited :: others) after

end

variable {σ : Type} {table : HandlerTable σ}

def Arrives (table : HandlerTable σ) (steps : Nat) : Prop :=
  ∀ tree frames state, (walkFrom table steps (.arriving tree) frames state).fault = none →
    ∃ fewer visited after, fewer < steps ∧ Visits table (nearest frames) tree state visited after ∧
      walkFrom table steps (.arriving tree) frames state =
        walkFrom table fewer (.done visited) frames after

theorem walkFrom_zero_fault (focus : Focus) (frames : List Frame) (state : σ) :
    (walkFrom table 0 focus frames state).fault = some .outOfSteps := by
  simp [walkFrom]

theorem nearest_cons (frame : Frame) (frames : List Frame) :
    nearest (frame :: frames) = (frame.label :: nearest frames).take 2 := by
  simp [nearest, List.map_take, List.take_take]

theorem visitsAll_of_walkFrom (limit : Nat) (each : ∀ steps, steps ≤ limit → Arrives table steps)
    (label : Label) (frames : List Frame) (rest : List Node) :
    ∀ steps child earlier state, steps ≤ limit →
      (walkFrom table steps (.arriving child) (⟨label, earlier, rest⟩ :: frames) state).fault =
        none →
      ∃ fewer visited after, fewer < steps ∧
        VisitsAll table ((label :: nearest frames).take 2) (child :: rest) state visited after ∧
        walkFrom table steps (.arriving child) (⟨label, earlier, rest⟩ :: frames) state =
          walkFrom table fewer (.done (.node label (earlier.reverse ++ visited))) frames after := by
  induction rest with
  | nil =>
      intro steps child earlier state within complete
      obtain ⟨fewer, visited, after, less, visit, same⟩ := each steps within child _ state complete
      rw [nearest_cons] at visit
      rw [same] at complete
      cases fewer with
      | zero => simp [walkFrom_zero_fault] at complete
      | succ fewer =>
          refine ⟨fewer, [visited], after, by omega, .cons visit .nil, ?_⟩
          rw [same, walkFrom]
          simp [Frame.attach]
  | cons next rest ih =>
      intro steps child earlier state within complete
      obtain ⟨fewer, visited, middle, less, visit, same⟩ :=
        each steps within child _ state complete
      rw [nearest_cons] at visit
      rw [same] at complete
      cases fewer with
      | zero => simp [walkFrom_zero_fault] at complete
      | succ fewer =>
          rw [walkFrom] at complete
          obtain ⟨least, others, after, under, later, equal⟩ :=
            ih fewer next (visited :: earlier) middle (by omega) complete
          refine ⟨least, visited :: others, after, by omega, .cons visit later, ?_⟩
          rw [same, walkFrom]
          simpa using equal

theorem arrives_succ (steps : Nat) (each : ∀ fewer, fewer ≤ steps → Arrives table fewer) :
    Arrives table (steps + 1) := by
  intro tree frames state complete
  by_cases present : tree.isLeaf = true
  · refine ⟨steps, tree, state, by omega, .leaf present, ?_⟩
    rw [walkFrom]
    simp [present]
  · have absent : tree.isLeaf = false := by simpa using present
    rw [walkFrom] at complete ⊢
    simp only [absent, Bool.false_eq_true, if_false] at complete ⊢
    generalize here : applyHandlers (nearest frames) (table.handlersFor tree.kind) tree state =
      outcome at complete ⊢
    obtain ⟨⟨label, children⟩, handled, fault⟩ := outcome
    cases fault with
    | some fault => simp at complete
    | none =>
        cases children with
        | nil => exact ⟨steps, .node label [], handled, by omega, .inner absent here .nil, rfl⟩
        | cons child rest =>
            obtain ⟨fewer, visited, after, less, below, same⟩ :=
              visitsAll_of_walkFrom steps each label frames rest steps child [] handled
                (Nat.le_refl steps) complete
            exact ⟨fewer, .node label visited, after, by omega, .inner absent here below, same⟩

theorem arrives (table : HandlerTable σ) (steps : Nat) : Arrives table steps := by
  induction steps using Nat.strongRecOn with
  | ind steps ih =>
      cases steps with
      | zero =>
          intro tree frames state complete
          simp [walkFrom_zero_fault] at complete
      | succ steps => exact arrives_succ steps fun fewer within => ih fewer (by omega)

theorem visits_of_walk (steps : Nat) (tree : Node) (state : σ)
    (complete : (table.walk steps tree state).fault = none) :
    Visits table [] tree state (table.walk steps tree state).tree
      (table.walk steps tree state).state := by
  obtain ⟨fewer, visited, after, _, visit, same⟩ := arrives table steps tree [] state complete
  unfold HandlerTable.walk at complete ⊢
  rw [same] at complete ⊢
  cases fewer with
  | zero => simp [walkFrom_zero_fault] at complete
  | succ fewer =>
      rw [walkFrom]
      exact visit

end ScriptTyping
