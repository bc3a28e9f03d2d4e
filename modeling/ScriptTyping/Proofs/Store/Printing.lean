import ScriptTyping.Proofs.Node.Source
import ScriptTyping.Proofs.Store.Acyclic
import ScriptTyping.Store.Printing

set_option autoImplicit false

namespace ScriptTyping

open Relation

section Loops

variable {σ ρ : Type} {step : σ → σ ⊕ ρ} {state next : σ} {result : ρ}

def Turns (step : σ → σ ⊕ ρ) : σ → σ → Prop :=
  ReflTransGen fun state next => step state = .inl next

def Ends (step : σ → σ ⊕ ρ) (state : σ) (result : ρ) : Prop :=
  ∃ last, Turns step state last ∧ step last = .inr result

theorem Ends.of_turns (turns : Turns step state next) (ends : Ends step next result) :
    Ends step state result := by
  obtain ⟨last, more, done⟩ := ends
  exact ⟨last, turns.trans more, done⟩

theorem Ends.repeatM_eq [Nonempty ρ] (ends : Ends step state result) :
    repeatM (m := Id) step state = result := by
  obtain ⟨last, turns, done⟩ := ends
  have unfolded (state : σ) : repeatM (m := Id) step state =
      match step state with
      | .inl next => repeatM (m := Id) step next
      | .inr result => result := repeatM_eq_of_monadTail state
  induction turns using ReflTransGen.head_induction_on with
  | refl => rw [unfolded, done]
  | head turn _ ih =>
      rw [unfolded, turn]
      exact ih

end Loops

namespace Tree

mutual

-- The nodes in the order in which a printer is done with them. It does not look below a leaf.
def finished : Tree (NodeId × Label) → List NodeId
  | node entry children =>
      if entry.2.isLeaf then [entry.1] else finishedAll children ++ [entry.1]

def finishedAll : List (Tree (NodeId × Label)) → List NodeId
  | [] => []
  | tree :: rest => finished tree ++ finishedAll rest

end

theorem finishedAll_eq (trees : List (Tree (NodeId × Label))) :
    finishedAll trees = trees.flatMap finished := by
  induction trees with
  | nil => rfl
  | cons tree rest ih => rw [finishedAll, ih, List.flatMap_cons]

end Tree

namespace Store

variable {store : Store} {id leaf : NodeId}

def printOrder (store : Store) (id : NodeId) : List NodeId := (store.view id).finished

def ownText (store : Store) (id : NodeId) : String :=
  match (store.label id).token with
  | some token => (store.label id).lead ++ token
  | none => (store.label id).trail

def written (store : Store) (id : NodeId) : String :=
  String.join ((store.printOrder id).map store.ownText)

def tokens (store : Store) (id : NodeId) : List NodeId := (store.printOrder id).filter store.isLeaf

theorem token_of_inner (inner : store.isLeaf id = false) : (store.label id).token = none := by
  simpa [isLeaf, Label.isLeaf] using inner

theorem inner_of_token (none : (store.label id).token = none) : store.isLeaf id = false := by
  simp [isLeaf, Label.isLeaf, none]

theorem leaf_of_token {token : String} (present : (store.label id).token = some token) :
    store.isLeaf id = true := by
  simp [isLeaf, Label.isLeaf, present]

theorem token_of_leaf (leaf : store.isLeaf id = true) :
    ∃ token, (store.label id).token = some token :=
  Option.isSome_iff_exists.mp leaf

theorem ownText_leaf {token : String} (present : (store.label id).token = some token) :
    store.ownText id = (store.label id).lead ++ token := by
  rw [ownText, present]

theorem ownText_inner (inner : store.isLeaf id = false) :
    store.ownText id = (store.label id).trail := by
  rw [ownText, token_of_inner inner]

theorem join_written (ids : List NodeId) :
    String.join ((ids.flatMap store.printOrder).map store.ownText) =
      String.join (ids.map store.written) := by
  induction ids with
  | nil => rfl
  | cons child rest ih =>
      rw [List.flatMap_cons, List.map_append, String.join_append, ih, List.map_cons, String.join_cons,
        written]

namespace Acyclic

variable (acyclic : store.Acyclic)

include acyclic

theorem printOrder_leaf (leaf : store.isLeaf id = true) : store.printOrder id = [id] := by
  rw [printOrder, acyclic.view_eq, Tree.finished]
  exact if_pos leaf

theorem printOrder_inner (inner : store.isLeaf id = false) :
    store.printOrder id = (store.children id).flatMap store.printOrder ++ [id] := by
  rw [printOrder, acyclic.view_eq, Tree.finished, if_neg (by simpa [isLeaf] using inner),
    Tree.finishedAll_eq, List.flatMap_map]
  rfl

theorem written_leaf {token : String} (present : (store.label id).token = some token) :
    store.written id = (store.label id).lead ++ token := by
  simp [written, acyclic.printOrder_leaf (leaf_of_token present), ownText_leaf present]

theorem written_inner (inner : store.isLeaf id = false) :
    store.written id =
      String.join ((store.children id).map store.written) ++ (store.label id).trail := by
  simp [written, acyclic.printOrder_inner inner, join_written, ownText_inner inner]

theorem tokens_leaf (leaf : store.isLeaf id = true) : store.tokens id = [id] := by
  simp [tokens, acyclic.printOrder_leaf leaf, leaf]

theorem tokens_inner (inner : store.isLeaf id = false) :
    store.tokens id = (store.children id).flatMap store.tokens := by
  rw [tokens, acyclic.printOrder_inner inner, List.filter_append, List.filter_flatMap,
    List.filter_singleton, inner, cond_false, List.append_nil]
  rfl

end Acyclic

section Loops

theorem printTurns_trail (trail : String) (rest : List Piece) (printed : String) :
    Turns store.printStep ((if trail.isEmpty then [] else [.trail trail]) ++ rest, printed)
      (rest, printed ++ trail) := by
  split
  next empty =>
    rw [String.isEmpty_iff.mp empty, List.nil_append, String.append_empty]
    exact .refl
  next => exact .single rfl

theorem printTurns_nodes (ids : List NodeId)
    (each : ∀ child ∈ ids, ∀ rest printed,
      Turns store.printStep (.node child :: rest, printed) (rest, printed ++ store.written child))
    (rest : List Piece) (printed : String) :
    Turns store.printStep (ids.map .node ++ rest, printed)
      (rest, printed ++ String.join (ids.map store.written)) := by
  induction ids generalizing printed with
  | nil =>
      rw [List.map_nil, List.map_nil, String.join_nil, String.append_empty]
      exact .refl
  | cons child others ih =>
      rw [List.map_cons, List.map_cons, String.join_cons, ← String.append_assoc]
      exact (each child List.mem_cons_self _ _).trans
        (ih (fun other member => each other (List.mem_cons_of_mem _ member)) _)

theorem leavesTurns_nodes (ids : List NodeId)
    (each : ∀ child ∈ ids, ∀ rest found,
      Turns store.leavesStep (child :: rest, found) (rest, found ++ (store.tokens child).toArray))
    (rest : List NodeId) (found : Array NodeId) :
    Turns store.leavesStep (ids ++ rest, found)
      (rest, found ++ (ids.flatMap store.tokens).toArray) := by
  induction ids generalizing found with
  | nil =>
      rw [List.flatMap_nil, Array.append_empty]
      exact .refl
  | cons child others ih =>
      rw [List.flatMap_cons, ← List.append_toArray, ← Array.append_assoc]
      exact (each child List.mem_cons_self _ _).trans
        (ih (fun other member => each other (List.mem_cons_of_mem _ member)) _)

-- How the search for a first leaf gets on: it has found one of the tokens, or goes on with what is
-- left.
def Searches (store : Store) (pending : List NodeId) (tokens rest : List NodeId) : Prop :=
  match tokens with
  | [] => Turns store.firstLeafStep pending rest
  | leaf :: _ => Ends store.firstLeafStep pending (some leaf)

theorem Searches.trans {pending between rest first second : List NodeId}
    (one : store.Searches pending first between) (two : store.Searches between second rest) :
    store.Searches pending (first ++ second) rest := by
  cases first with
  | cons leaf others => exact one
  | nil =>
      cases second with
      | nil => exact ReflTransGen.trans one two
      | cons leaf others => exact Ends.of_turns one two

theorem searches_nodes (ids : List NodeId)
    (each : ∀ child ∈ ids, ∀ rest, store.Searches (child :: rest) (store.tokens child) rest)
    (rest : List NodeId) : store.Searches (ids ++ rest) (ids.flatMap store.tokens) rest := by
  induction ids with
  | nil => exact ReflTransGen.refl
  | cons child others ih =>
      exact (each child List.mem_cons_self _).trans
        (ih fun other member => each other (List.mem_cons_of_mem _ member))

variable (acyclic : store.Acyclic)

include acyclic

theorem printTurns_node (id : NodeId) : ∀ rest printed,
    Turns store.printStep (.node id :: rest, printed) (rest, printed ++ store.written id) := by
  induction id using acyclic.induct with
  | node id below =>
      intro rest printed
      cases leaf : store.isLeaf id with
      | true =>
          obtain ⟨token, present⟩ := token_of_leaf leaf
          rw [acyclic.written_leaf present, ← String.append_assoc]
          exact .single (by simp only [printStep, present])
      | false =>
          have opens : store.printStep (.node id :: rest, printed) =
              .inl (store.pieces id ++ rest, printed) := by
            simp only [printStep, token_of_inner leaf]
          have inside := printTurns_nodes _ below
            ((if (store.label id).trail.isEmpty then [] else [.trail (store.label id).trail]) ++ rest)
            printed
          rw [← List.append_assoc] at inside
          rw [acyclic.written_inner leaf, ← String.append_assoc]
          exact .head opens (inside.trans (printTurns_trail _ _ _))

theorem print_ends (id : NodeId) : Ends store.printStep ([.node id], "") (store.written id) :=
  ⟨_, printTurns_node acyclic id [] "", by rw [printStep, String.empty_append]⟩

theorem text_eq (id : NodeId) : store.text id = store.written id :=
  (print_ends acyclic id).repeatM_eq

theorem leavesTurns_node (id : NodeId) : ∀ rest found,
    Turns store.leavesStep (id :: rest, found) (rest, found ++ (store.tokens id).toArray) := by
  induction id using acyclic.induct with
  | node id below =>
      intro rest found
      cases leaf : store.isLeaf id with
      | true =>
          rw [acyclic.tokens_leaf leaf, ← Array.push_eq_append]
          exact .single (by simp only [leavesStep, leaf, if_true])
      | false =>
          have opens : store.leavesStep (id :: rest, found) =
              .inl (store.children id ++ rest, found) := by
            simp only [leavesStep, leaf, Bool.false_eq_true, if_false]
          rw [acyclic.tokens_inner leaf]
          exact .head opens (leavesTurns_nodes _ below _ _)

theorem leaves_end (id : NodeId) :
    Ends store.leavesStep ([id], #[]) (store.tokens id).toArray :=
  ⟨_, leavesTurns_node acyclic id [] #[], by rw [leavesStep, Array.empty_append]⟩

theorem leaves_eq (id : NodeId) : store.leaves id = store.tokens id :=
  congrArg Array.toList (leaves_end acyclic id).repeatM_eq

theorem searches_node (id : NodeId) : ∀ rest,
    store.Searches (id :: rest) (store.tokens id) rest := by
  induction id using acyclic.induct with
  | node id below =>
      intro rest
      cases leaf : store.isLeaf id with
      | true =>
          rw [acyclic.tokens_leaf leaf]
          exact ⟨_, .refl, by simp only [firstLeafStep, leaf, if_true]⟩
      | false =>
          have opens : store.firstLeafStep (id :: rest) = .inl (store.children id ++ rest) := by
            simp only [firstLeafStep, leaf, Bool.false_eq_true, if_false]
          have turn : store.Searches (id :: rest) [] (store.children id ++ rest) := .single opens
          rw [acyclic.tokens_inner leaf]
          exact turn.trans (searches_nodes _ below rest)

theorem firstLeaf_ends (id : NodeId) :
    Ends store.firstLeafStep [id] (store.tokens id).head? := by
  have searches := searches_node acyclic id []
  cases tokens : store.tokens id with
  | nil =>
      rw [tokens] at searches
      exact ⟨[], searches, rfl⟩
  | cons leaf others =>
      rw [tokens] at searches
      exact searches

theorem firstLeaf?_eq (id : NodeId) : store.firstLeaf? id = (store.tokens id).head? :=
  (firstLeaf_ends acyclic id).repeatM_eq

end Loops

def Opens (store : Store) (parent child : NodeId) : Prop :=
  store.isLeaf parent = false ∧ child ∈ store.children parent

theorem Acyclic.mem_printOrder (acyclic : store.Acyclic) (id : NodeId) {part : NodeId} :
    part ∈ store.printOrder id ↔ ReflTransGen store.Opens id part := by
  induction id using acyclic.induct with
  | node id below =>
      rw [ReflTransGen.cases_head_iff]
      cases leaf : store.isLeaf id with
      | true =>
          simp [acyclic.printOrder_leaf leaf, Opens, leaf, eq_comm]
      | false =>
          simp only [acyclic.printOrder_inner leaf, List.mem_append, List.mem_flatMap,
            List.mem_singleton, Opens, leaf, true_and]
          constructor
          next =>
            rintro (⟨child, held, lower⟩ | rfl)
            next => exact .inr ⟨child, held, (below child held).mp lower⟩
            next => exact .inl rfl
          next =>
            rintro (rfl | ⟨child, held, lower⟩)
            next => exact .inr rfl
            next => exact .inl ⟨child, held, (below child held).mpr lower⟩

namespace WellLinked

variable (linked : store.WellLinked)

include linked

theorem above_of_reached {upper lower : NodeId} (way : ReflTransGen store.Opens upper lower) :
    ReflTransGen store.Under lower upper := by
  induction way with
  | refl => exact .refl
  | tail _ opens ih => exact ih.head ((linked.linked _ _).mpr opens.2)

-- What stands below two children of one node would make one of them stand below the other.
theorem apart_of_children {first second part : NodeId} (here : first ∈ store.children id)
    (there : second ∈ store.children id) (other : first ≠ second)
    (below : ReflTransGen store.Under part first) : ¬ ReflTransGen store.Under part second := by
  intro below'
  have single : Relator.RightUnique store.Under := fun _ _ _ one two =>
    Option.some.inj (one.symm.trans two)
  have step {child sibling : NodeId} (held : child ∈ store.children id)
      (also : sibling ∈ store.children id) (apart : child ≠ sibling) :
      ¬ ReflTransGen store.Under child sibling := by
    intro way
    rcases ReflTransGen.cases_head way with same | ⟨above, under, rest⟩
    next => exact apart same
    next =>
      obtain rfl := single under ((linked.linked child id).mpr held)
      exact linked.not_above_of_mem also rest
  rcases ReflTransGen.total_of_right_unique single below below' with way | way
  next => exact step here there other way
  next => exact step there here other.symm way

theorem nodup_printOrder (id : NodeId) : (store.printOrder id).Nodup := by
  have acyclic := linked.toAcyclic
  induction id using acyclic.induct with
  | node id below =>
      cases leaf : store.isLeaf id with
      | true =>
          rw [acyclic.printOrder_leaf leaf]
          exact List.nodup_singleton id
      | false =>
          have above {child part : NodeId} (member : part ∈ store.printOrder child) :
              ReflTransGen store.Under part child :=
            linked.above_of_reached ((acyclic.mem_printOrder child).mp member)
          rw [acyclic.printOrder_inner leaf, List.nodup_append]
          refine ⟨List.nodup_flatMap.mpr ⟨below, ?_⟩, List.nodup_singleton id, ?_⟩
          · refine (linked.nodup_children id).pairwise_of_forall_ne fun first here second there other => ?_
            exact fun part member also =>
              linked.apart_of_children here there other (above member) (above also)
          · intro part member last final same
            obtain ⟨child, held, lower⟩ := List.mem_flatMap.mp member
            rw [List.mem_singleton] at final
            exact linked.not_above_of_mem held (final ▸ same ▸ above lower)

end WellLinked

end Store

end ScriptTyping
