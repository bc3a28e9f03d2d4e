import Mathlib.Data.List.Forall2
import ScriptTyping.Walk.Visit

set_option autoImplicit false

namespace ScriptTyping

variable {σ : Type}

def HandlerTable.Heedless (table : HandlerTable σ) : Prop :=
  ∀ handler ∈ table, ∀ above tree first second,
    (handler.handle above tree first).tree = (handler.handle above tree second).tree ∧
      (handler.handle above tree first).fault = (handler.handle above tree second).fault

def Makes (table : HandlerTable σ) (above : List Label) (tree handled : Node) : Prop :=
  ∃ state after,
    applyHandlers above (table.handlersFor tree.kind) tree state = ⟨handled, after, none⟩

def Runs (table : HandlerTable σ) (above : List Label) (tree final : Node) : Prop :=
  ∃ state after, Visits table above tree state final after

variable {table : HandlerTable σ} {above : List Label} {tree handled final : Node}

theorem applyHandlers_heedless {handlers : List (Handler σ)}
    (heedless : HandlerTable.Heedless handlers) (above : List Label) (tree : Node)
    (first second : σ) :
    (applyHandlers above handlers tree first).tree =
        (applyHandlers above handlers tree second).tree ∧
      (applyHandlers above handlers tree first).fault =
        (applyHandlers above handlers tree second).fault := by
  induction handlers generalizing tree first second with
  | nil => exact ⟨rfl, rfl⟩
  | cons handler rest ih =>
      obtain ⟨same, stopped⟩ := heedless handler (by simp) above tree first second
      simp only [applyHandlers, ← same, ← stopped]
      cases fault : (handler.handle above tree first).fault with
      | none => exact ih (fun other member => heedless other (by simp [member])) _ _ _
      | some other => exact ⟨same, stopped⟩

theorem HandlerTable.Heedless.handlersFor (heedless : table.Heedless) (kind : String) :
    HandlerTable.Heedless (table.handlersFor kind) :=
  fun handler member => heedless handler (List.mem_filter.mp member).1

theorem Makes.always (heedless : table.Heedless) (makes : Makes table above tree handled)
    (state : σ) : ∃ after,
      applyHandlers above (table.handlersFor tree.kind) tree state = ⟨handled, after, none⟩ := by
  obtain ⟨first, after, same⟩ := makes
  obtain ⟨equal, stopped⟩ :=
    applyHandlers_heedless (heedless.handlersFor tree.kind) above tree first state
  rw [same] at equal stopped
  generalize applyHandlers above (table.handlersFor tree.kind) tree state = outcome at equal stopped
  obtain ⟨made, last, fault⟩ := outcome
  cases equal
  cases stopped
  exact ⟨last, rfl⟩

theorem Makes.of_unhandled (none : table.handlersFor tree.kind = []) (state : σ) :
    Makes table above tree tree :=
  ⟨state, state, by rw [none, applyHandlers]⟩

theorem Makes.eq_of_unhandled (none : table.handlersFor tree.kind = [])
    (makes : Makes table above tree handled) : handled = tree := by
  obtain ⟨state, after, same⟩ := makes
  rw [none, applyHandlers] at same
  cases same
  rfl

theorem Runs.always (heedless : table.Heedless) (runs : Runs table above tree final) (state : σ) :
    ∃ after, Visits table above tree state final after := by
  obtain ⟨first, last, visits⟩ := runs
  refine @Visits.rec _ table
    (fun above tree _ final _ _ => ∀ state, ∃ after, Visits table above tree state final after)
    (fun above trees _ finals _ _ => ∀ state, ∃ after, VisitsAll table above trees state finals after)
    ?_ ?_ ?_ ?_ _ _ _ _ _ visits state
  · intro above tree _ present state
    exact ⟨state, .leaf present⟩
  · intro above tree _ _ _ label children finals absent here below ih state
    obtain ⟨middle, made⟩ := Makes.always heedless ⟨_, _, here⟩ state
    obtain ⟨after, visited⟩ := ih middle
    exact ⟨after, .inner absent made visited⟩
  · intro above _ state
    exact ⟨state, .nil⟩
  · intro above tree final rest others _ _ _ _ _ ih ihs state
    obtain ⟨middle, here⟩ := ih state
    obtain ⟨after, later⟩ := ihs middle
    exact ⟨after, .cons here later⟩

theorem Runs.leaf (state : σ) (present : tree.isLeaf = true) : Runs table above tree tree :=
  ⟨state, state, .leaf present⟩

theorem Runs.inner (heedless : table.Heedless) {finals : List Node} (absent : tree.isLeaf = false)
    (makes : Makes table above tree handled)
    (below : List.Forall₂ (Runs table ((handled.label :: above).take 2)) handled.children finals) :
    Runs table above tree (.node handled.label finals) := by
  obtain ⟨label, children⟩ := handled
  obtain ⟨state, middle, here⟩ := makes
  have visited : ∀ begun,
      ∃ after, VisitsAll table ((label :: above).take 2) children begun finals after := by
    rw [Tree.label_node, Tree.children_node] at below
    clear here
    induction below with
    | nil => exact fun begun => ⟨begun, .nil⟩
    | cons run later ih =>
        intro begun
        obtain ⟨next, first⟩ := run.always heedless begun
        obtain ⟨after, rest⟩ := ih next
        exact ⟨after, .cons first rest⟩
  obtain ⟨after, below⟩ := visited middle
  exact ⟨state, after, .inner absent here below⟩

@[elab_as_elim]
theorem Runs.induct {motive : ∀ above tree final, Runs table above tree final → Prop}
    (leaf : ∀ above tree runs, tree.isLeaf = true → motive above tree tree runs)
    (inner : ∀ above tree handled finals runs, tree.isLeaf = false →
      Makes table above tree handled →
      List.Forall₂ (fun child final => ∃ runs,
        motive ((handled.label :: above).take 2) child final runs) handled.children finals →
      motive above tree (.node handled.label finals) runs)
    (runs : Runs table above tree final) : motive above tree final runs := by
  obtain ⟨state, after, visits⟩ := runs
  refine @Visits.rec _ table (fun above tree _ final _ visits => motive above tree final
    ⟨_, _, visits⟩) (fun above trees _ finals _ _ =>
    List.Forall₂ (fun child final => ∃ runs, motive above child final runs) trees finals)
    ?_ ?_ ?_ ?_ _ _ _ _ _ visits
  · intro above tree state present
    exact leaf _ _ _ present
  · intro above tree state handled after label children finals absent here below ih
    exact inner above tree (.node label children) finals _ absent ⟨state, handled, here⟩ ih
  · intro above state
    exact .nil
  · intro above tree final rest others state middle after first later ih ihs
    exact .cons ⟨⟨_, _, first⟩, ih⟩ ihs

theorem Runs.cases (runs : Runs table above tree final) :
    (tree.isLeaf = true ∧ final = tree) ∨
      (tree.isLeaf = false ∧ ∃ handled finals, Makes table above tree handled ∧
        final = .node handled.label finals ∧
        List.Forall₂ (Runs table ((handled.label :: above).take 2)) handled.children finals) := by
  induction runs using induct with
  | leaf above tree runs present => exact .inl ⟨present, rfl⟩
  | inner above tree handled finals runs absent makes below =>
      exact .inr ⟨absent, handled, finals, makes, rfl, below.imp fun _ _ ⟨runs, _⟩ => runs⟩

theorem runs_of_walk (steps : Nat) (tree : Node) (state : σ)
    (complete : (table.walk steps tree state).fault = none) :
    Runs table [] tree (table.walk steps tree state).tree :=
  ⟨_, _, visits_of_walk steps tree state complete⟩

end ScriptTyping
