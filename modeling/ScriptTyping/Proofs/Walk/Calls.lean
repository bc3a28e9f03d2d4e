import ScriptTyping.Proofs.Node.Parts
import ScriptTyping.Proofs.Walk.Reach

set_option autoImplicit false

namespace ScriptTyping

structure Call (σ : Type) where
  place : Nat
  above : List Label
  tree : Node
  state : σ

structure Stop (σ : Type) where
  arrived : Node
  calls : List (Call σ)
  left : Label

inductive Calls {σ : Type} (above : List Label) :
    List (Handler σ × Nat) → Node → σ → List (Call σ) → Node → σ → Prop where
  | nil {tree : Node} {state : σ} : Calls above [] tree state [] tree state
  | cons {handler : Handler σ} {place : Nat} {rest : List (Handler σ × Nat)}
      {tree changed handled : Node} {state middle after : σ} {calls : List (Call σ)}
      (first : handler.handle above tree state = ⟨changed, middle, none⟩)
      (later : Calls above rest changed middle calls handled after) :
      Calls above ((handler, place) :: rest) tree state (⟨place, above, tree, state⟩ :: calls)
        handled after

namespace HandlerTable

variable {σ : Type}

def registered (table : HandlerTable σ) (kind : String) : List (Handler σ × Nat) :=
  table.zipIdx.filter fun entry => entry.1.kinds.contains kind

def logging (entry : Handler σ × Nat) : Handler (σ × List (Call σ)) where
  kinds := entry.1.kinds
  handle above tree state :=
    let outcome := entry.1.handle above tree state.1
    ⟨outcome.tree, (outcome.state, state.2 ++ [⟨entry.2, above, tree, state.1⟩]), outcome.fault⟩

def logged (table : HandlerTable σ) : HandlerTable (σ × List (Call σ)) := table.zipIdx.map logging

theorem handlersFor_eq (table : HandlerTable σ) (kind : String) :
    table.handlersFor kind = (table.registered kind).map Prod.fst := by
  rw [handlersFor, registered]
  conv => lhs; rw [← List.zipIdx_map_fst 0 table]
  rw [List.filter_map]
  rfl

theorem handlersFor_logged (table : HandlerTable σ) (kind : String) :
    table.logged.handlersFor kind = (table.registered kind).map logging := by
  rw [handlersFor, logged, registered, List.filter_map]
  rfl

end HandlerTable

mutual

inductive Tours {σ : Type} (table : HandlerTable σ) :
    List Label → Node → σ → List (Stop σ) → Node → σ → Prop where
  | leaf {above : List Label} {tree : Node} {state : σ} (present : tree.isLeaf = true) :
      Tours table above tree state [] tree state
  | inner {above : List Label} {tree : Node} {state handled after : σ} {label : Label}
      {children visited : List Node} {calls : List (Call σ)} {stops : List (Stop σ)}
      (absent : tree.isLeaf = false)
      (here : Calls above (table.registered tree.kind) tree state calls (.node label children) handled)
      (below : ToursAll table ((label :: above).take 2) children handled stops visited after) :
      Tours table above tree state (⟨tree, calls, label⟩ :: stops) (.node label visited) after

inductive ToursAll {σ : Type} (table : HandlerTable σ) :
    List Label → List Node → σ → List (Stop σ) → List Node → σ → Prop where
  | nil {above : List Label} {state : σ} : ToursAll table above [] state [] [] state
  | cons {above : List Label} {tree visited : Node} {rest others : List Node}
      {state middle after : σ} {stops more : List (Stop σ)}
      (first : Tours table above tree state stops visited middle)
      (later : ToursAll table above rest middle more others after) :
      ToursAll table above (tree :: rest) state (stops ++ more) (visited :: others) after

end

def Outcome.unlogged {σ : Type} (outcome : Outcome (σ × List (Call σ))) : Outcome σ :=
  { outcome with state := outcome.state.1 }

variable {σ : Type} {table : HandlerTable σ}

theorem unlogged_applyHandlers (above : List Label) (entries : List (Handler σ × Nat)) (tree : Node)
    (state : σ) (log : List (Call σ)) :
    applyHandlers above (entries.map Prod.fst) tree state =
      (applyHandlers above (entries.map HandlerTable.logging) tree (state, log)).unlogged := by
  induction entries generalizing tree state log with
  | nil => rfl
  | cons entry rest ih =>
      simp only [List.map_cons, applyHandlers, HandlerTable.logging]
      cases fault : (entry.1.handle above tree state).fault with
      | none => exact ih _ _ _
      | some other => simp [Outcome.unlogged, ← fault]

theorem unlogged_walkFrom (table : HandlerTable σ) (steps : Nat) (focus : Focus) (frames : List Frame)
    (state : σ) (log : List (Call σ)) :
    walkFrom table steps focus frames state =
      (walkFrom table.logged steps focus frames (state, log)).unlogged := by
  induction steps generalizing focus frames state log with
  | zero => rfl
  | succ steps ih =>
      cases focus with
      | arriving tree =>
          rw [walkFrom, walkFrom]
          split
          next => exact ih _ _ _ _
          next =>
            rw [HandlerTable.handlersFor_eq, HandlerTable.handlersFor_logged,
              unlogged_applyHandlers _ _ _ _ log]
            generalize applyHandlers (nearest frames)
              ((table.registered tree.kind).map HandlerTable.logging) tree (state, log) = outcome
            obtain ⟨⟨label, children⟩, ⟨handled, more⟩, fault⟩ := outcome
            cases fault with
            | some fault => rfl
            | none => cases children <;> exact ih _ _ _ _
      | done tree =>
          cases frames with
          | nil => rfl
          | cons frame frames =>
              rw [walkFrom, walkFrom]
              split <;> exact ih _ _ _ _

theorem applyHandlers_iff_calls (above : List Label) (entries : List (Handler σ × Nat))
    (tree handled : Node) (state after : σ) (log more : List (Call σ)) :
    applyHandlers above (entries.map HandlerTable.logging) tree (state, log) =
        ⟨handled, (after, more), none⟩ ↔
      ∃ calls, Calls above entries tree state calls handled after ∧ more = log ++ calls := by
  induction entries generalizing tree state log with
  | nil =>
      constructor
      · rintro ⟨⟩
        exact ⟨[], .nil, by simp⟩
      · rintro ⟨calls, ⟨⟩, rfl⟩
        simp [applyHandlers]
  | cons entry rest ih =>
      obtain ⟨handler, place⟩ := entry
      simp only [List.map_cons, applyHandlers, HandlerTable.logging]
      generalize call : handler.handle above tree state = outcome
      obtain ⟨changed, middle, fault⟩ := outcome
      cases fault with
      | some fault =>
          constructor
          · intro same
            simp at same
          · rintro ⟨calls, whole, _⟩
            cases whole with
            | cons first later =>
                rw [call] at first
                simp at first
      | none =>
          rw [ih]
          constructor
          · rintro ⟨calls, later, rfl⟩
            exact ⟨_, .cons call later, by simp⟩
          · rintro ⟨calls, whole, rfl⟩
            cases whole with
            | cons first later =>
                rw [call] at first
                cases first
                exact ⟨_, later, by simp⟩

theorem tours_of_visits {above : List Label} {tree final : Node} {before after : σ × List (Call σ)}
    (visits : Visits table.logged above tree before final after) :
    ∃ stops, Tours table above tree before.1 stops final after.1 ∧
      after.2 = before.2 ++ stops.flatMap Stop.calls := by
  refine @Visits.rec _ table.logged
    (fun above tree before final after _ => ∃ stops,
      Tours table above tree before.1 stops final after.1 ∧
        after.2 = before.2 ++ stops.flatMap Stop.calls)
    (fun above trees before finals after _ => ∃ stops,
      ToursAll table above trees before.1 stops finals after.1 ∧
        after.2 = before.2 ++ stops.flatMap Stop.calls) ?_ ?_ ?_ ?_ _ _ _ _ _ visits
  · intro above tree state present
    exact ⟨[], .leaf present, by simp⟩
  · intro above tree state handled after label children finals absent here below ih
    rw [HandlerTable.handlersFor_logged, applyHandlers_iff_calls] at here
    obtain ⟨calls, called, reached⟩ := here
    obtain ⟨stops, toured, ended⟩ := ih
    exact ⟨_, .inner absent called toured, by simp [ended, reached]⟩
  · intro above state
    exact ⟨[], .nil, by simp⟩
  · intro above tree final rest others state middle after first later ih ihs
    obtain ⟨stops, toured, reached⟩ := ih
    obtain ⟨more, others, ended⟩ := ihs
    exact ⟨_, .cons toured others, by simp [ended, reached]⟩

theorem visits_of_tours {above : List Label} {tree final : Node} {state after : σ}
    {stops : List (Stop σ)} (tours : Tours table above tree state stops final after) :
    ∀ log, Visits table.logged above tree (state, log) final
      (after, log ++ stops.flatMap Stop.calls) := by
  refine @Tours.rec _ table
    (fun above tree state stops final after _ => ∀ log, Visits table.logged above tree (state, log)
      final (after, log ++ stops.flatMap Stop.calls))
    (fun above trees state stops finals after _ => ∀ log, VisitsAll table.logged above trees
      (state, log) finals (after, log ++ stops.flatMap Stop.calls)) ?_ ?_ ?_ ?_ _ _ _ _ _ _ tours
  · intro above tree state present log
    simpa using Visits.leaf present
  · intro above tree state handled after label children finals calls stops absent here below ih log
    have called := (applyHandlers_iff_calls _ _ _ _ _ _ log _).mpr ⟨calls, here, rfl⟩
    rw [← HandlerTable.handlersFor_logged] at called
    simpa using Visits.inner absent called (ih (log ++ calls))
  · intro above state log
    simpa using VisitsAll.nil
  · intro above tree final rest others state middle after stops more first later ih ihs log
    simpa using VisitsAll.cons (ih log) (ihs (log ++ stops.flatMap Stop.calls))

-- The handlers work on the tree below the node that they are given: the node keeps its number and
-- does not become a leaf.
def HandlerTable.KeepsNodes (table : HandlerTable σ) : Prop :=
  ∀ handler ∈ table, ∀ above tree state, tree.isLeaf = false →
    (handler.handle above tree state).tree.isLeaf = false ∧
      (handler.handle above tree state).tree.label.origin = tree.label.origin

theorem label_of_calls {above : List Label} {entries : List (Handler σ × Nat)} {tree handled : Node}
    {state after : σ} {calls : List (Call σ)}
    (keeps : HandlerTable.KeepsNodes (entries.map Prod.fst))
    (called : Calls above entries tree state calls handled after) (inner : tree.isLeaf = false) :
    handled.isLeaf = false ∧ handled.label.origin = tree.label.origin := by
  induction called with
  | nil => exact ⟨inner, rfl⟩
  | @cons handler place rest tree changed handled state middle after calls first later ih =>
      have here := keeps handler (by simp) above tree state inner
      rw [first] at here
      have there := ih (fun other member => keeps other (by simp [List.mem_map.mp member])) here.1
      exact ⟨there.1, there.2.trans here.2⟩

theorem stops_of_tours (keeps : table.KeepsNodes) {above : List Label} {tree final : Node}
    {state after : σ} {stops : List (Stop σ)}
    (tours : Tours table above tree state stops final after) :
    stops.map Stop.left = final.inners ∧
      ∀ stop ∈ stops, stop.left.origin = stop.arrived.label.origin := by
  refine @Tours.rec _ table
    (fun _ _ _ stops final _ _ => stops.map Stop.left = final.inners ∧
      ∀ stop ∈ stops, stop.left.origin = stop.arrived.label.origin)
    (fun _ _ _ stops finals _ _ => stops.map Stop.left = Tree.innersAll finals ∧
      ∀ stop ∈ stops, stop.left.origin = stop.arrived.label.origin) ?_ ?_ ?_ ?_ _ _ _ _ _ _ tours
  · intro above tree state present
    obtain ⟨label, children⟩ := tree
    have leaf : label.isLeaf = true := present
    exact ⟨by simp [Tree.inners, leaf], by simp⟩
  · intro above tree state handled after label children finals calls stops absent here below ih
    have among : HandlerTable.KeepsNodes ((table.registered tree.kind).map Prod.fst) := by
      rw [← HandlerTable.handlersFor_eq]
      exact fun handler member => keeps handler (List.mem_filter.mp member).1
    obtain ⟨inner, origin⟩ := label_of_calls among here absent
    have branch : label.isLeaf = false := inner
    refine ⟨by simp [Tree.inners, branch, ih.1], fun stop member => ?_⟩
    rcases List.mem_cons.mp member with rfl | later
    · exact origin
    · exact ih.2 stop later
  · intro above state
    exact ⟨rfl, by simp⟩
  · intro above tree final rest others state middle after stops more first later ih ihs
    refine ⟨by simp [Tree.innersAll, ih.1, ihs.1], fun stop member => ?_⟩
    rcases List.mem_append.mp member with here | there
    · exact ih.2 stop here
    · exact ihs.2 stop there

/-- A walk ends when the recursive visit does, with the same calls of handlers, the same tree and the same
state. Where the handlers keep the nodes that they are given, the visited nodes are, one by one and in
order, those of the final tree that neither are leaves nor stand below one. -/
theorem walk_tours (table : HandlerTable σ) (tree : Node) (state : σ) :
    (∀ steps, table.walk steps tree state =
      (table.logged.walk steps tree (state, [])).unlogged) ∧
    (∀ final after calls,
      (∃ steps, table.logged.walk steps tree (state, []) = ⟨final, (after, calls), none⟩) ↔
        ∃ stops, Tours table [] tree state stops final after ∧
          calls = stops.flatMap Stop.calls) ∧
    (table.KeepsNodes → ∀ stops final after, Tours table [] tree state stops final after →
      stops.map Stop.left = final.inners ∧
      (∀ stop ∈ stops, stop.left.origin = stop.arrived.label.origin) ∧
      ((∀ part ∈ final.subtrees, part.isLeaf = true → part.children = []) →
        final.inners = (final.subtrees.filter fun part => !part.isLeaf).map Tree.label)) := by
  refine ⟨fun steps => ?_, fun final after calls => ?_, fun keeps stops final after tours => ?_⟩
  · exact unlogged_walkFrom table steps (.arriving tree) [] state []
  · rw [walk_iff_visits]
    constructor
    · intro visits
      simpa using tours_of_visits visits
    · rintro ⟨stops, tours, rfl⟩
      simpa using visits_of_tours tours []
  · obtain ⟨labels, numbers⟩ := stops_of_tours keeps tours
    exact ⟨labels, numbers, final.inners_of_childless⟩

def HandlerTable.KeepsKinds (table : HandlerTable σ) : Prop :=
  ∀ handler ∈ table, ∀ above tree state, handler.kinds.contains tree.kind = true →
    (handler.handle above tree state).fault = none →
      (handler.handle above tree state).tree.kind = tree.kind

def Call.Fits (table : HandlerTable σ) (call : Call σ) : Prop :=
  ∃ handler, table[call.place]? = some handler ∧ handler.kinds.contains call.tree.kind = true

theorem fits_applyHandlers (keeps : table.KeepsKinds) {above : List Label}
    {entries : List (Handler σ × Nat)} {tree : Node} {state : σ × List (Call σ)}
    (among : ∀ entry ∈ entries, entry ∈ table.registered tree.kind)
    (earlier : ∀ call ∈ state.2, call.Fits table) :
    ∀ call ∈ (applyHandlers above (entries.map HandlerTable.logging) tree state).state.2,
      call.Fits table := by
  induction entries generalizing tree state with
  | nil => exact earlier
  | cons entry rest ih =>
      obtain ⟨registered, handles⟩ := List.mem_filter.mp (among entry (by simp))
      have present : table[entry.2]? = some entry.1 := List.mem_zipIdx_iff_getElem?.mp registered
      have next : ∀ call ∈ state.2 ++ [⟨entry.2, above, tree, state.1⟩], call.Fits table := by
        intro call member
        rcases List.mem_append.mp member with old | new
        · exact earlier call old
        · obtain rfl := List.mem_singleton.mp new
          exact ⟨entry.1, present, handles⟩
      simp only [List.map_cons, applyHandlers]
      split
      next => exact next
      next unfaulted =>
        have kept := keeps entry.1 (List.mem_of_getElem? present) above tree state.1 handles unfaulted
        refine ih (fun other member => ?_) next
        rw [show (HandlerTable.logging entry).handle above tree state = _ from rfl]
        simpa only [HandlerTable.logging, kept] using among other (List.mem_cons_of_mem _ member)

theorem fits_walkFrom (keeps : table.KeepsKinds) (steps : Nat) (focus : Focus) (frames : List Frame)
    (state : σ × List (Call σ)) (earlier : ∀ call ∈ state.2, call.Fits table) :
    ∀ call ∈ (walkFrom table.logged steps focus frames state).state.2, call.Fits table := by
  induction steps generalizing focus frames state with
  | zero => exact earlier
  | succ steps ih =>
      cases focus with
      | arriving tree =>
          rw [walkFrom]
          split
          next => exact ih _ _ _ earlier
          next =>
            have here : ∀ call ∈ (applyHandlers (nearest frames) (table.logged.handlersFor tree.kind)
                tree state).state.2, call.Fits table := by
              rw [HandlerTable.handlersFor_logged]
              exact fits_applyHandlers keeps (fun _ member => member) earlier
            dsimp only
            split
            next => exact here
            next => split <;> exact ih _ _ _ here
      | done tree =>
          cases frames with
          | nil => exact earlier
          | cons frame frames =>
              rw [walkFrom]
              split <;> exact ih _ _ _ earlier

def lengthening : Handler Unit where
  kinds := ["list"]
  handle _ tree state :=
    let item := Tree.branch "item" [.mark "*" " "] none
    ⟨tree.withChildren (tree.children ++ [item]), state, none⟩

def shortening : Handler Unit where
  kinds := ["list", "item"]
  handle _ tree state := ⟨tree.withChildren tree.children.tail, state, none⟩

theorem keepsNodes_length (table : HandlerTable Unit)
    (among : ∀ handler ∈ table, handler = lengthening ∨ handler = shortening) : table.KeepsNodes := by
  intro handler member above tree state inner
  rcases among handler member with rfl | rfl <;> exact ⟨inner, rfl⟩

def listed : Node :=
  .branch "list" [.branch "item" [.mark "a" ""] none, .branch "item" [.mark "b" " "] none] none

theorem listed_toured : HandlerTable.KeepsNodes [lengthening, shortening] ∧
    ∃ stops : List (Stop Unit),
      Tours [lengthening, shortening] [] listed () stops
        (.branch "list" [.branch "item" [] none, .branch "item" [] none] none) () ∧
      (stops.flatMap Stop.calls).map (fun call => (call.place, call.tree.text)) =
        [(0, "a b"), (1, "a b *"), (1, " b"), (1, " *")] ∧
      (stops.map Stop.left).map Label.kind = ["list", "item", "item"] := by
  have keeps := keepsNodes_length [lengthening, shortening] (by simp)
  obtain ⟨-, same, counted⟩ := walk_tours [lengthening, shortening] listed ()
  obtain ⟨stops, tours, calls⟩ := (same _ () _).mp ⟨12, rfl⟩
  refine ⟨keeps, stops, tours, ?_, ?_⟩
  · rw [← calls]
    decide +kernel
  · rw [(counted keeps stops _ () tours).1]
    decide

def buried : Node :=
  .branch "list" [.mark "*" "", .node (Tree.mark "a" " ").label [.branch "item" [] none]] none

theorem buried_not_toured :
    ¬ ∀ (table : HandlerTable Unit) (tree final : Node) (stops : List (Stop Unit)),
      table.KeepsNodes → Tours table [] tree () stops final () →
        stops.map Stop.left =
          (final.subtrees.filter fun part => !part.isLeaf).map Tree.label := by
  intro claimed
  have tours : Tours [shortening] [] buried () [⟨buried, [⟨0, [], buried, ()⟩], buried.label⟩]
      (buried.withChildren buried.children.tail) () :=
    .inner rfl (.cons rfl .nil) (.cons (.leaf rfl) .nil)
  have same := claimed _ _ _ _ (keepsNodes_length [shortening] (by simp)) tours
  exact absurd same (by decide)

end ScriptTyping
