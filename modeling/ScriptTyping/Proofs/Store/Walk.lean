import ScriptTyping.Proofs.Store.Subtree
import ScriptTyping.Store.Walk

set_option autoImplicit false

namespace ScriptTyping

open Store Relation

variable {σ : Type}

structure Agrees (store : Store) (id : NodeId) (linked : LinkedOutcome σ) (outcome : Outcome σ) :
    Prop where
  tree : linked.store.toNode id = outcome.tree
  state : linked.state = outcome.state
  fault : linked.fault = outcome.fault
  confined : InPlace store id [] linked.store

theorem Agrees.under {store after : Store} {root : NodeId} {linked : LinkedOutcome σ}
    {outcome : Outcome σ} (well : store.WellLinked) (confined : InPlace store root [] after)
    (agrees : Agrees after root linked outcome) : Agrees store root linked outcome :=
  ⟨agrees.tree, agrees.state, agrees.fault, confined.again well agrees.confined⟩

-- On linked nodes the handler does what the other one does to trees, and it changes nothing that is
-- neither at its node nor below it.
structure Realises (linked : LinkedHandler σ) (handler : Handler σ) : Prop where
  kinds : linked.kinds = handler.kinds
  handle : ∀ {store : Store} {id : NodeId} (state : σ), store.WellLinked → id < store.cells.size →
    Agrees store id (linked.handle id store state)
      (handler.handle (store.ancestors 2 id) (store.toNode id) state)

theorem realised_handlersFor {linked : LinkedTable σ} {table : HandlerTable σ}
    (realised : List.Forall₂ Realises linked table) (kind : String) :
    List.Forall₂ Realises (linked.handlersFor kind) (table.handlersFor kind) := by
  induction realised with
  | nil => exact .nil
  | @cons one handler _ _ here _ ih =>
      unfold LinkedTable.handlersFor HandlerTable.handlersFor at ih ⊢
      rw [List.filter_cons, List.filter_cons, here.kinds]
      split
      next => exact .cons here ih
      next => exact ih

theorem agrees_applyHandlers {linked : List (LinkedHandler σ)} {handlers : List (Handler σ)}
    (realised : List.Forall₂ Realises linked handlers) {store : Store} {id : NodeId}
    (well : store.WellLinked) (within : id < store.cells.size) (state : σ) :
    Agrees store id (Store.applyHandlers id linked store state)
      (applyHandlers (store.ancestors 2 id) handlers (store.toNode id) state) := by
  induction realised generalizing store state with
  | nil => exact ⟨rfl, rfl, rfl, .refl well id⟩
  | @cons one handler _ _ here _ ih =>
      have first := here.handle state well within
      simp only [Store.applyHandlers, applyHandlers, first.fault]
      cases (handler.handle (store.ancestors 2 id) (store.toNode id) state).fault with
      | some fault => exact first
      | none =>
          have rest := ih first.confined.linked (within.trans_le first.confined.size)
            (one.handle id store state).state
          rw [first.tree, first.state, first.confined.ancestors well] at rest
          simp only [first.state]
          exact rest.under well first.confined

namespace Store

variable {store after : Store} {root id : NodeId} {frames : List Frame} {waiting : List NodeId}
  {state : σ}

theorem attach_toNode (acyclic : store.Acyclic) {parent : NodeId} {before later : List NodeId}
    (held : store.children parent = before ++ id :: later) :
    Frame.attach ⟨store.label parent, (before.map store.toNode).reverse, later.map store.toNode⟩
      (store.toNode id) = store.toNode parent := by
  rw [acyclic.toNode_eq parent, held]
  simp [Frame.attach]

-- The frames of a walk that has come to a node, and what its stack holds behind that node.
inductive Opened (store : Store) (root : NodeId) : NodeId → List Frame → List NodeId → Prop where
  | root (free : store.parent root = none) : Opened store root root [] []
  | child {parent id : NodeId} {before later waiting : List NodeId} {frames : List Frame}
      (above : Opened store root parent frames waiting)
      (held : store.children parent = before ++ id :: later) :
      Opened store root id
        (⟨store.label parent, (before.map store.toNode).reverse, later.map store.toNode⟩ :: frames)
        (later ++ waiting)

namespace Opened

theorem ancestors (well : store.WellLinked) (opened : Opened store root id frames waiting)
    (count : Nat) : store.ancestors count id = (frames.take count).map (·.label) := by
  induction opened generalizing count with
  | root free =>
      cases count with
      | zero => rfl
      | succ count => simp [Store.ancestors, free]
  | @child parent id before later _ _ _ held ih =>
      cases count with
      | zero => rfl
      | succ count =>
          have above : store.parent id = some parent :=
            (well.linked id parent).mpr (mem_of_split held)
          simp only [Store.ancestors, above, ih count, List.take_succ_cons, List.map_cons]

theorem rebuild (acyclic : store.Acyclic) (opened : Opened store root id frames waiting) :
    ScriptTyping.rebuild frames (store.toNode id) = store.toNode root := by
  induction opened with
  | root => rfl
  | @child parent id before later _ _ _ held ih =>
      rw [← ih, ← attach_toNode acyclic held]
      rfl

theorem confined (well : store.WellLinked) (opened : Opened store root id frames waiting)
    (confined : InPlace store id [] after) :
    Opened after root id frames waiting ∧ InPlace store root [] after := by
  induction opened with
  | root free => exact ⟨.root (confined.parent.trans free), confined⟩
  | @child parent id before later _ _ _ held ih =>
      have member : id ∈ store.children parent := mem_of_split held
      have label := confined.label_parent well member
      have children := confined.children_parent well member
      obtain ⟨above, whole⟩ := ih (confined.up well member)
      obtain ⟨earlier, waiting⟩ := confined.toNode_split well held
      have next := Opened.child above (children.trans held)
      rw [label, earlier, waiting] at next
      exact ⟨next, whole⟩

theorem within (well : store.WellLinked) (opened : Opened store root id frames waiting)
    (within : root < store.cells.size) : id < store.cells.size := by
  cases opened with
  | root => exact within
  | @child parent _ _ _ _ _ _ held =>
      have member : id ∈ store.children parent := mem_of_split held
      exact well.lt_of_mem member

theorem down (opened : Opened store root id frames waiting) {first : NodeId} {rest : List NodeId}
    (held : store.children id = first :: rest) :
    Opened store root first (⟨store.label id, [], rest.map store.toNode⟩ :: frames)
      (rest ++ waiting) :=
  @Opened.child store root id first [] rest waiting frames opened held

end Opened

variable {linked : LinkedTable σ} {table : HandlerTable σ}

theorem isLeaf_toNode (acyclic : store.Acyclic) (id : NodeId) :
    (store.toNode id).isLeaf = store.isLeaf id := by
  rw [Tree.isLeaf, label_toNode acyclic, isLeaf]

-- What the stack holds when a walk comes to a node, or when it is done with it.
def pending (id : NodeId) (waiting : List NodeId) : Focus → List NodeId
  | .arriving _ => id :: waiting
  | .done _ => waiting

section Turn

variable (realised : List.Forall₂ Realises linked table) (well : store.WellLinked)
  (within : root < store.cells.size) (opened : Opened store root id frames waiting)

include realised well within opened

theorem agrees_turn (state : σ) :
    let result := applyHandlers id (linked.handlersFor (store.label id).kind) store state
    let outcome := ScriptTyping.applyHandlers (nearest frames)
      (table.handlersFor (store.toNode id).kind) (store.toNode id) state
    Agrees store id result outcome ∧ Opened result.store root id frames waiting ∧
      InPlace store root [] result.store := by
  have agrees := agrees_applyHandlers (realised_handlersFor realised (store.label id).kind) well
    (opened.within well within) state
  rw [opened.ancestors well 2] at agrees
  rw [Tree.kind, label_toNode well.toAcyclic]
  exact ⟨agrees, opened.confined well agrees.confined⟩

-- What the loop does at a node and what the walk does there, and where both of them go next.
theorem turn_cases (state : σ) :
    (walkStep linked (id :: waiting, store, state) = .inl (waiting, store, state) ∧
      ∀ steps, walkFrom table (steps + 1) (.arriving (store.toNode id)) frames state =
        walkFrom table steps (.done (store.toNode id)) frames state) ∨
    (∃ result, walkStep linked (id :: waiting, store, state) = .inr result ∧
      ∀ steps, Agrees store root result
        (walkFrom table (steps + 1) (.arriving (store.toNode id)) frames state)) ∨
    ∃ after next, Opened after root id frames waiting ∧ InPlace store root [] after ∧
      walkStep linked (id :: waiting, store, state) =
        .inl (after.children id ++ waiting, after, next) ∧
      ∀ steps, walkFrom table (steps + 1) (.arriving (store.toNode id)) frames state =
        match after.children id with
        | [] => walkFrom table steps (.done (after.toNode id)) frames next
        | first :: rest => walkFrom table steps (.arriving (after.toNode first))
            (⟨after.label id, [], rest.map after.toNode⟩ :: frames) next := by
  have leaf := isLeaf_toNode well.toAcyclic id
  cases shut : store.isLeaf id with
  | true =>
      refine .inl ⟨by simp [walkStep, shut], fun steps => ?_⟩
      rw [walkFrom, if_pos (leaf.trans shut)]
  | false =>
      have inner : ¬ (store.toNode id).isLeaf = true := by simp [leaf, shut]
      obtain ⟨agrees, still, whole⟩ := agrees_turn realised well within opened state
      refine .inr ?_
      simp only [walkStep, shut, Bool.false_eq_true, if_false, walkFrom, if_neg inner, agrees.fault]
      cases stopped : (ScriptTyping.applyHandlers (nearest frames)
          (table.handlersFor (store.toNode id).kind) (store.toNode id) state).fault with
      | some fault =>
          refine .inl ⟨_, rfl, fun steps =>
            ⟨?_, agrees.state, agrees.fault.trans stopped, whole⟩⟩
          rw [← still.rebuild agrees.confined.linked.toAcyclic, agrees.tree]
      | none =>
          refine .inr ⟨_, _, still, whole, rfl, fun steps => ?_⟩
          simp only [← agrees.tree, ← agrees.state, agrees.confined.linked.toAcyclic.toNode_eq id]
          cases (applyHandlers id (linked.handlersFor (store.label id).kind) store state).store.children
            id <;> rfl

end Turn

theorem walkFrom_ends (realised : List.Forall₂ Realises linked table) (steps : Nat)
    {focus : Focus} (well : store.WellLinked) (within : root < store.cells.size)
    (opened : Opened store root id frames waiting)
    (enough : (walkFrom table steps focus frames state).fault ≠ some .outOfSteps)
    (read : focus.tree = store.toNode id) :
    ∃ result, Ends (walkStep linked) (pending id waiting focus, store, state) result ∧
      Agrees store root result (walkFrom table steps focus frames state) := by
  induction steps generalizing focus store id frames waiting state with
  | zero => exact absurd (by rw [walkFrom]) enough
  | succ steps ih =>
      cases focus with
      | arriving tree =>
          obtain rfl : tree = store.toNode id := read
          rcases turn_cases realised well within opened state with
            ⟨turn, same⟩ | ⟨result, turn, agrees⟩ | ⟨after, next, still, whole, turn, same⟩
          · rw [same] at enough ⊢
            obtain ⟨result, ends, agrees⟩ := ih well within opened enough rfl
            exact ⟨result, ends.of_turns (.single turn), agrees⟩
          · exact ⟨result, ⟨_, .refl, turn⟩, agrees steps⟩
          · have onward := within.trans_le whole.size
            rw [same] at enough ⊢
            cases held : after.children id with
            | nil =>
                rw [held] at turn
                simp only [held] at enough ⊢
                obtain ⟨result, ends, agrees⟩ :=
                  ih whole.linked onward still enough rfl
                exact ⟨result, ends.of_turns (.single turn), agrees.under well whole⟩
            | cons first rest =>
                rw [held] at turn
                simp only [held] at enough ⊢
                obtain ⟨result, ends, agrees⟩ :=
                  ih whole.linked onward (still.down held) enough rfl
                exact ⟨result, ends.of_turns (.single turn), agrees.under well whole⟩
      | done tree =>
          obtain rfl : tree = store.toNode id := read
          cases opened with
          | root free =>
              rw [walkFrom]
              exact ⟨_, ⟨_, .refl, rfl⟩, rfl, rfl, rfl, .refl well root⟩
          | @child parent _ before later waiting frames above held =>
              cases later with
              | nil =>
                  rw [walkFrom, List.map_nil] at enough ⊢
                  have attached := attach_toNode well.toAcyclic held
                  exact ih well within above enough attached
              | cons next later =>
                  rw [walkFrom, List.map_cons] at enough ⊢
                  have split : store.children parent = (before ++ [id]) ++ next :: later := by
                    simpa using held
                  have following := Opened.child above split
                  rw [List.map_append, List.reverse_append] at following
                  exact ih well within following enough rfl

-- When the walk is done with a node, it goes on with what the stack holds next.
theorem walkFrom_done (acyclic : store.Acyclic) (opened : Opened store root id frames waiting) :
    match waiting with
    | [] => ∃ taken, ∀ state : σ, walkFrom table taken (.done (store.toNode id)) frames state =
        ⟨store.toNode root, state, none⟩
    | next :: rest => ∃ taken others, Opened store root next others rest ∧ ∀ (steps : Nat) (state : σ),
        walkFrom table (steps + taken) (.done (store.toNode id)) frames state =
          walkFrom table steps (.arriving (store.toNode next)) others state := by
  induction opened with
  | root free => exact ⟨1, fun state => by rw [walkFrom]⟩
  | @child parent id before later waiting frames above held ih =>
      cases later with
      | nil =>
          have climbs (steps : Nat) (state : σ) :
              walkFrom table (steps + 1) (.done (store.toNode id))
                (⟨store.label parent, (before.map store.toNode).reverse, [].map store.toNode⟩ :: frames)
                state = walkFrom table steps (.done (store.toNode parent)) frames state := by
            rw [walkFrom, ← attach_toNode acyclic held, List.map_nil]
          cases waiting with
          | nil =>
              obtain ⟨taken, ends⟩ := ih
              exact ⟨taken + 1, fun state => (climbs taken state).trans (ends state)⟩
          | cons next rest =>
              obtain ⟨taken, others, following, goes⟩ := ih
              exact ⟨taken + 1, others, following, fun steps state =>
                (climbs (steps + taken) state).trans (goes steps state)⟩
      | cons next later =>
          have split : store.children parent = (before ++ [id]) ++ next :: later := by
            simpa using held
          have following := Opened.child above split
          rw [List.map_append, List.reverse_append] at following
          exact ⟨1, _, following, fun steps state => by rw [walkFrom, List.map_cons]; rfl⟩

theorem walkFrom_of_ends (realised : List.Forall₂ Realises linked table)
    {start last : List NodeId × Store × σ} {result : LinkedOutcome σ}
    (turns : Turns (walkStep linked) start last) (final : walkStep linked last = .inr result)
    (well : store.WellLinked) (within : root < store.cells.size)
    (opened : Opened store root id frames waiting) (here : start = (id :: waiting, store, state)) :
    ∃ steps, Agrees store root result
      (walkFrom table steps (.arriving (store.toNode id)) frames state) := by
  induction turns using ReflTransGen.head_induction_on generalizing store id frames waiting state with
  | refl =>
      subst here
      rcases turn_cases realised well within opened state with
        ⟨turn, -⟩ | ⟨other, turn, agrees⟩ | ⟨after, next, -, -, turn, -⟩
      · cases turn.symm.trans final
      · obtain rfl := Sum.inr.inj (turn.symm.trans final)
        exact ⟨1, agrees 0⟩
      · cases turn.symm.trans final
  | @head start middle turn rest ih =>
      subst here
      -- After a node without children to visit, the walk is done with the node.
      have done {now : Store} {next : σ} (whole : InPlace store root [] now)
          (still : Opened now root id frames waiting) (reached : middle = (waiting, now, next)) :
          ∃ steps, Agrees now root result
            (walkFrom table steps (.done (now.toNode id)) frames next) := by
        have leaves := @walkFrom_done _ _ _ _ _ _ table whole.linked.toAcyclic still
        cases waiting with
        | nil =>
            obtain ⟨taken, ends⟩ := leaves
            subst reached
            rcases ReflTransGen.cases_head rest with rfl | ⟨_, more, -⟩
            · obtain rfl := Sum.inr.inj final
              refine ⟨taken, ?_⟩
              rw [ends]
              exact ⟨rfl, rfl, rfl, .refl whole.linked root⟩
            · cases more
        | cons first others =>
            obtain ⟨taken, below, following, goes⟩ := leaves
            obtain ⟨steps, agrees⟩ :=
              ih whole.linked (within.trans_le whole.size) following reached
            exact ⟨steps + taken, goes steps next ▸ agrees⟩
      rcases turn_cases realised well within opened state with
        ⟨same, goes⟩ | ⟨other, same, -⟩ | ⟨after, next, still, whole, same, goes⟩
      · obtain ⟨steps, agrees⟩ :=
          done (.refl well root) opened (Sum.inl.inj (turn.symm.trans same))
        exact ⟨steps + 1, goes steps ▸ agrees⟩
      · cases turn.symm.trans same
      · have reached := Sum.inl.inj (turn.symm.trans same)
        cases held : after.children id with
        | nil =>
            rw [held] at reached
            obtain ⟨steps, agrees⟩ := done whole still reached
            refine ⟨steps + 1, ?_⟩
            rw [goes, held]
            exact agrees.under well whole
        | cons first others =>
            rw [held] at reached
            obtain ⟨steps, agrees⟩ :=
              ih whole.linked (within.trans_le whole.size) (still.down held) reached
            refine ⟨steps + 1, ?_⟩
            rw [goes, held]
            exact agrees.under well whole

theorem walk_eq {result : LinkedOutcome σ}
    (ends : Ends (walkStep linked) ([root], store, state) result) :
    walk linked root store state = result :=
  have : Nonempty (LinkedOutcome σ) := ⟨⟨store, state, none⟩⟩
  ends.repeatM_eq

/-- The loop over a stack of linked nodes ends exactly if the walk of the tree does, and both come to
the same: what the loop leaves reads as the tree that the walk leaves, with the same state and the same
fault, and nothing outside the tree has changed. -/
theorem walk_realises (realised : List.Forall₂ Realises linked table) (well : store.WellLinked)
    (within : root < store.cells.size) (free : store.parent root = none) (state : σ) :
    (∀ steps, (table.walk steps (store.toNode root) state).fault ≠ some .outOfSteps →
      Ends (walkStep linked) ([root], store, state) (walk linked root store state) ∧
        Agrees store root (walk linked root store state)
          (table.walk steps (store.toNode root) state)) ∧
    ∀ result, Ends (walkStep linked) ([root], store, state) result →
      result = walk linked root store state ∧
        ∃ steps, Agrees store root result (table.walk steps (store.toNode root) state) := by
  have opened : Opened store root root [] [] := .root free
  refine ⟨fun steps enough => ?_, fun result ends => ?_⟩
  · obtain ⟨result, ends, agrees⟩ :=
      walkFrom_ends realised steps well within opened enough rfl
    rw [walk_eq ends]
    exact ⟨ends, agrees⟩
  · obtain ⟨last, turns, final⟩ := ends
    exact ⟨(walk_eq ⟨last, turns, final⟩).symm,
      walkFrom_of_ends realised turns final well within opened rfl⟩

end Store

end ScriptTyping
