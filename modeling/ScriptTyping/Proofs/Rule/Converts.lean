import ScriptTyping.Proofs.Rule.Effect
import ScriptTyping.Proofs.Walk.Heedless

set_option autoImplicit false

namespace ScriptTyping

theorem Functions.label_bound {tree started parameters bound : Node} {children bindings : List Node}
    (start : withParameters? tree = some started)
    (binds : withBindings? bindings (listed started parameters children) = some bound) :
    bound.label = tree.label := by
  rw [← label_started start]
  rcases withBindings?_cases binds with ⟨_, rfl⟩ | ⟨_, _, _, _, _, _, _, _, _, rfl⟩ <;> rfl

namespace Rule

theorem Effect.label {above : List Label} {tree handled : Node}
    (effect : Effect above tree handled) : handled.label = tree.label := by
  cases effect with
  | signed kind start list annotates binds results =>
      exact (Functions.label_resulted results).trans (Functions.label_bound start binds)
  | _ => rfl

def Converts (above : List Label) (tree final : Node) : Prop :=
  ∃ session after, Visits (table all) above tree session final after

namespace Converts

variable {above : List Label} {tree final : Node}

@[elab_as_elim]
theorem induct {motive : ∀ above tree final, Converts above tree final → Prop}
    (leaf : ∀ above tree run, tree.isLeaf = true → motive above tree tree run)
    (inner : ∀ above tree handled finals run, tree.isLeaf = false → Effect above tree handled →
      List.Forall₂ (fun child final => ∃ run,
        motive ((handled.label :: above).take 2) child final run) handled.children finals →
      motive above tree (handled.withChildren finals) run)
    (run : Converts above tree final) : motive above tree final run := by
  refine @Runs.induct _ (table all) above tree final (fun above tree final run =>
    motive above tree final run) leaf ?_ run
  intro above tree handled finals run absent makes below
  obtain ⟨session, after, here⟩ := makes
  exact inner above tree handled finals run absent (effect_of_applyHandlers here) below

theorem cases (run : Converts above tree final) :
    (tree.isLeaf = true ∧ final = tree) ∨
      (tree.isLeaf = false ∧ ∃ handled finals, Effect above tree handled ∧
        final = handled.withChildren finals ∧
        List.Forall₂ (Converts ((handled.label :: above).take 2)) handled.children finals) := by
  induction run using induct with
  | leaf above tree run present => exact .inl ⟨present, rfl⟩
  | inner above tree handled finals run absent effect below =>
      exact .inr ⟨absent, handled, finals, effect, rfl, below.imp fun _ _ ⟨run, _⟩ => run⟩

theorem label (run : Converts above tree final) : final.label = tree.label := by
  rcases run.cases with ⟨_, rfl⟩ | ⟨_, handled, finals, effect, rfl, _⟩
  · rfl
  · exact effect.label

theorem kind (run : Converts above tree final) : final.kind = tree.kind :=
  congrArg Label.kind run.label

theorem slot (run : Converts above tree final) : final.slot = tree.slot :=
  congrArg Label.slot run.label

theorem isLeaf (run : Converts above tree final) : final.isLeaf = tree.isLeaf :=
  congrArg Label.isLeaf run.label

end Converts

theorem converts_of_walk {tree : Node} {session : Session}
    (complete : (walk all tree session).fault = none) :
    Converts [] tree (walk all tree session).tree :=
  ⟨_, _, visits_of_walk (stepBudget tree) tree session complete⟩

end Rule

end ScriptTyping
