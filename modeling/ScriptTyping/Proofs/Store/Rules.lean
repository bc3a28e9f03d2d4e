import ScriptTyping.Proofs.Store.Statements
import ScriptTyping.Proofs.Store.Walk
import ScriptTyping.Store.Rules

set_option autoImplicit false

namespace ScriptTyping

open Relation

namespace Store

variable {store after : Store} {id child : NodeId} {left right : List NodeId} {session : Session}

section Runs

open Rewriting

variable {α β : Type} {value : α}

theorem run_look (next : Store → Rewriting β) :
    (look >>= next) (store, session) = next store (store, session) := rfl

theorem run_record (entry : Entry) (next : Unit → Rewriting β) :
    (record entry >>= next) (store, session) = next () (store, session.record entry) := rfl

theorem edit_of_ok {change : Editing α} (ran : change store = .ok value after) :
    edit change (store, session) = .ok value (after, session) := by
  simp only [edit, ran]

theorem run_edit {change : Editing α} {next : α → Rewriting β}
    (ran : change store = .ok value after) :
    (edit change >>= next) (store, session) = next value (after, session) :=
  run_bind (edit_of_ok ran)

end Runs

section Reads

variable (acyclic : store.Acyclic)

include acyclic

theorem kind_toNode (id : NodeId) : (store.toNode id).kind = store.kind id :=
  congrArg Label.kind (label_toNode acyclic id)

theorem hasChild_toNode (id : NodeId) (slot : String) :
    (store.toNode id).hasChild slot = store.hasChild id slot := by
  rw [Tree.hasChild, child?_toNode acyclic, Option.isSome_map, hasChild]

end Reads

theorem agrees_same {σ : Type} (linked : store.WellLinked) (id : NodeId) (state : σ)
    (fault : Option WalkFault) :
    Agrees store id ⟨store, state, fault⟩ ⟨store.toNode id, state, fault⟩ :=
  ⟨rfl, rfl, rfl, .refl linked id⟩

def behind (mark : Option String) (tree : Node) (rest : List Node) : List Node :=
  match mark with
  | none => tree :: rest
  | some mark => Children.insertBehind mark tree rest

theorem ofNode_isMade (tree : Node) : (Draft.ofNode tree).IsMade := by
  cases tree
  trivial

theorem behind_split (acyclic : store.Acyclic) (mark : Option String) (tree : Node)
    (right : List NodeId) :
    ∃ front rest, right = front ++ rest ∧
      behind mark tree (right.map store.toNode) =
        front.map store.toNode ++ tree :: rest.map store.toNode ∧
      front.length = if right.head?.any fun next => mark == some (store.kind next) then 1 else 0 := by
  cases right with
  | nil =>
      refine ⟨[], [], rfl, ?_, rfl⟩
      cases mark <;> rfl
  | cons next rest =>
      cases mark with
      | none => exact ⟨[], next :: rest, rfl, rfl, rfl⟩
      | some mark =>
          have hung : behind (some mark) tree ((next :: rest).map store.toNode) =
              if store.kind next == mark then
                store.toNode next :: tree :: rest.map store.toNode
              else tree :: store.toNode next :: rest.map store.toNode := by
            rw [behind, List.map_cons, Children.insertBehind, kind_toNode acyclic]
          by_cases marked : store.kind next = mark
          · refine ⟨[next], rest, rfl, hung.trans (if_pos ?_), by simp [marked]⟩
            exact beq_iff_eq.mpr marked
          · refine ⟨[], next :: rest, rfl, hung.trans (if_neg ?_), by simp [Ne.symm marked]⟩
            exact fun same => marked (beq_iff_eq.mp same)

theorem insertBehind_places (linked : store.WellLinked)
    (split : store.children id = left ++ child :: right) (mark : Option String) (tree : Node) :
    ∃ after, insertBehind id child mark tree store = .ok () after ∧ InPlace store id [] after ∧
      after.toNode id = .node (store.label id)
        (left.map store.toNode ++ store.toNode child :: behind mark tree (right.map store.toNode)) ∧
      ∀ other ∈ store.children id, after.toNode other = store.toNode other := by
  obtain ⟨front, rest, rfl, hung, place⟩ := behind_split linked.toAcyclic mark tree right
  have within := lt_of_mem_children (mem_of_split split)
  have further : store.children id = (left ++ child :: front) ++ rest := by simpa using split
  have plain := (ofNode_plain store tree)
  have placed := inserted_new linked within further (ofNode_isMade tree) plain.1
  refine ⟨_, ?_, placed.toInPlace, ?_, further ▸ placed.reads⟩
  · rw [insertBehind, run_indexOf linked split, run_get]
    simp only [run_bind (make_eq _ _), getElem?_behind split]
    have position : (left ++ child :: front).length =
        if ((front ++ rest).head?.any fun next => mark == some (store.kind next)) = true then
          left.length + 2
        else left.length + 1 := by
      rw [List.length_append, List.length_cons, place]
      split <;> rfl
    rw [position]
    rfl
  · rw [placed.toNode, plain.2, hung]
    simp

theorem markup_realised (number : Nat) :
    Realises (Rule.linked number .markup) (Rule.handler number .markup) := by
  refine ⟨rfl, fun {store id} session linked within => ?_⟩
  change Agrees store id (Rewriting.outcome (Markup.handle number id (store, session)))
    (ScriptTyping.Markup.handle number (store.ancestors 2 id) (store.toNode id) session)
  rw [Markup.handle, run_get, ScriptTyping.Markup.handle, kind_toNode linked.toAcyclic]
  cases found : session.hasFound number with
  | true =>
      simp only [found, if_true]
      exact agrees_same linked id session none
  | false =>
      simp only [found, Bool.false_eq_true, if_false]
      exact agrees_same linked id _ none

theorem infer_toNode (acyclic : store.Acyclic) (id : NodeId) :
    TypeHint.infer ((store.toNode id).child? "value") = Declarations.inferred store id := by
  rw [child?_toNode acyclic, Declarations.inferred]
  cases store.child? id (some "value") with
  | none => rfl
  | some value => exact congrArg TypeHint.ofKind (kind_toNode acyclic value)

theorem declarations_realised (number : Nat) :
    Realises (Rule.linked number .declarations) (Rule.handler number .declarations) := by
  refine ⟨rfl, fun {store id} session linked within => ?_⟩
  have acyclic := linked.toAcyclic
  change Agrees store id (Rewriting.outcome (Declarations.handle id (store, session)))
    (ScriptTyping.Declarations.handle (store.ancestors 2 id) (store.toNode id) session)
  rw [Declarations.handle, run_look, ScriptTyping.Declarations.handle, child?_toNode acyclic,
    hasChild_toNode acyclic]
  cases first : store.child? id (some "name") with
  | none => exact agrees_same linked id session none
  | some name =>
      simp only [Option.map_some, sourceText_toNode acyclic]
      cases typed : store.hasChild id "type" with
      | true =>
          simp only [if_true]
          exact agrees_same linked id _ none
      | false =>
          cases header : ScriptTyping.Declarations.inLoopHeader (store.ancestors 2 id) with
          | true =>
              simp only [Bool.false_eq_true, if_false, if_true]
              exact agrees_same linked id _ none
          | false =>
              simp only [Bool.false_eq_true, if_false]
              obtain ⟨left, right, split, before, present⟩ := split_of_child? acyclic first
              obtain ⟨after, ran, inPlace, read, -⟩ := insertBehind_places linked split (some "!")
                ((Declarations.inferred store id).toNode (some "type"))
              have same : after.toNode id = ScriptTyping.Declarations.annotate (store.toNode id) := by
                rw [read, ScriptTyping.Declarations.annotate, infer_toNode acyclic, Tree.withChildren,
                  label_toNode acyclic, children_toNode acyclic, split, List.map_append, List.map_cons,
                  Children.insertAfterMarked_split before present]
                rfl
              rw [run_edit ran, run_look]
              refine ⟨same, ?_, rfl, inPlace⟩
              rw [kind_toNode acyclic, ← same, sourceText_toNode inPlace.linked.toAcyclic]
              rfl

theorem requoted (linked : store.WellLinked) {source : NodeId} (within : source < store.cells.size)
    (quote : Char) (specifier : String) :
    let after := store.refill source (Imports.quotedDrafts (store.trivia source) quote specifier)
    InPlace store source [] after ∧ after.toNode source =
      (store.toNode source).withChildren
        (ScriptTyping.Imports.quotedTokens (store.trivia source) quote specifier) := by
  obtain ⟨inPlace, read⟩ := refilled linked within
    (show Draft.allGivens (Imports.quotedDrafts (store.trivia source) quote specifier) = [] from rfl)
  refine ⟨inPlace, ?_⟩
  rw [read, Tree.withChildren, label_toNode linked.toAcyclic]
  rfl

theorem imports_realised (number : Nat) :
    Realises (Rule.linked number .imports) (Rule.handler number .imports) := by
  refine ⟨rfl, fun {store id} session linked within => ?_⟩
  have acyclic := linked.toAcyclic
  change Agrees store id (Rewriting.outcome (Imports.handle id (store, session)))
    (ScriptTyping.Imports.handle (store.ancestors 2 id) (store.toNode id) session)
  rw [Imports.handle, run_look, ScriptTyping.Imports.handle, child?_toNode acyclic]
  cases first : store.child? id (some "source") with
  | none => exact agrees_same linked id session none
  | some source =>
      simp only [Option.map_some, sourceText_toNode acyclic, kind_toNode acyclic,
        trivia_toNode acyclic]
      split
      next => exact agrees_same linked id session none
      next =>
        cases text : (store.sourceText source).toList with
        | nil => exact agrees_same linked id session _
        | cons quote quoted =>
            simp only
            split
            next => exact agrees_same linked id _ none
            next =>
              have held := List.mem_of_find?_eq_some first
              obtain ⟨inPlace, read⟩ := requoted linked (linked.lt_of_mem held) quote
                (normalizeSpecifier (String.ofList quoted.dropLast))
              rw [← read, ← toNode_in_slot linked first inPlace,
                sourceText_toNode inPlace.linked.toAcyclic]
              exact ⟨rfl, rfl, rfl, inPlace.up linked held⟩

namespace LoopHeaders

open ScriptTyping.LoopHeaders (stripDeclarator isDeclarator isTypeHint loses sanitize)

def Typed (declarator : Node) : Bool := isDeclarator declarator && declarator.hasChild "type"

theorem stripDeclarator_eq {declarator : Node} (untyped : Typed declarator = false) :
    stripDeclarator declarator = declarator := by
  rw [stripDeclarator]
  split
  next here =>
    have absent : declarator.hasChild "type" = false := by simpa [Typed, here] using untyped
    rw [Children.erase_absent "type" ((Tree.child?_eq_none_iff _ _).mp
      ((Tree.hasChild_eq_false_iff _ _).mp absent)), Tree.withChildren_children]
  next => rfl

theorem typed_toNode (acyclic : store.Acyclic) (id : NodeId) :
    Typed (store.toNode id) =
      (store.kind id == "variable_declarator" && (store.child? id (some "type")).isSome) := by
  rw [Typed, isDeclarator, kind_toNode acyclic, hasChild_toNode acyclic, hasChild]

-- What the loop does with one declarator.
theorem stripDeclarator_turn (linked : store.WellLinked) (declarator : NodeId)
    (rest : List NodeId) (removed : Nat) :
    ∃ count after, stripDeclarators (declarator :: rest) removed store =
        stripDeclarators rest count after ∧
      InPlace store declarator [] after ∧
      after.toNode declarator = stripDeclarator (store.toNode declarator) ∧
      (count ≠ 0 ↔ removed ≠ 0 ∨ Typed (store.toNode declarator) = true) := by
  have acyclic := linked.toAcyclic
  rw [stripDeclarators, run_get, typed_toNode acyclic]
  by_cases typed : store.kind declarator = "variable_declarator" ∧
      (store.child? declarator (some "type")).isSome = true
  · obtain ⟨kind, present⟩ := typed
    obtain ⟨hint, first⟩ := Option.isSome_iff_exists.mp present
    obtain ⟨left, right, split, before, inside⟩ := split_of_child? acyclic first
    obtain ⟨taken, -, -⟩ := detached linked split
    refine ⟨removed + 1, store.without declarator hint, ?_, taken.toInPlace, ?_, by simp [kind, present]⟩
    · simp only [first, kind, beq_self_eq_true, if_true]
      exact run_remove linked split
    · have declares : isDeclarator (store.toNode declarator) = true := by
        rw [isDeclarator, kind_toNode acyclic, kind]
        rfl
      rw [taken.toNode, stripDeclarator, if_pos declares, Tree.withChildren, label_toNode acyclic,
        children_toNode acyclic, split, List.map_append, List.map_append, List.map_cons,
        Children.erase_split before inside]
  · have untyped : Typed (store.toNode declarator) = false := by
      rw [typed_toNode acyclic]
      simpa [beq_eq_false_iff_ne, Classical.not_and_iff_not_or_not] using typed
    refine ⟨removed, store, ?_, .refl linked declarator, (stripDeclarator_eq untyped).symm, ?_⟩
    · cases first : store.child? declarator (some "type") with
      | none => rfl
      | some hint =>
          have other : ¬ store.kind declarator = "variable_declarator" := fun kind =>
            typed ⟨kind, by rw [first]; rfl⟩
          simp only [beq_iff_eq, if_neg other]
    · rw [← typed_toNode acyclic, untyped]
      simp

theorem stripDeclarators_touched {declarators : List NodeId} (removed : Nat)
    (linked : store.WellLinked) (distinct : declarators.Nodup)
    (held : ∀ declarator ∈ declarators, declarator ∈ store.children id) :
    ∃ count after, stripDeclarators declarators removed store = .ok count after ∧
      Touched store id declarators ((declarators.map store.toNode).map stripDeclarator) after ∧
      (count ≠ 0 ↔ removed ≠ 0 ∨ (declarators.map store.toNode).any Typed = true) := by
  induction declarators generalizing store removed with
  | nil => exact ⟨removed, store, rfl, .nil linked id, by simp⟩
  | cons declarator rest ih =>
      obtain ⟨new, later⟩ := List.nodup_cons.mp distinct
      have here := held declarator List.mem_cons_self
      have there {other : NodeId} (member : other ∈ rest) : other ∈ store.children id :=
        held other (List.mem_cons_of_mem _ member)
      obtain ⟨count, middle, turn, inPlace, read, some⟩ :=
        stripDeclarator_turn linked declarator rest removed
      have same := inPlace.map_toNode_siblings linked here new fun _ => there
      obtain ⟨total, after, ran, touched, any⟩ := ih count inPlace.linked later fun other member =>
        (inPlace.children_parent linked here).symm ▸ there member
      rw [same] at touched any
      refine ⟨total, after, turn.trans ran, .cons linked here inPlace read new touched, ?_⟩
      rw [any, some, List.map_cons, List.any_cons, Bool.or_eq_true, or_assoc]

theorem isDeclaration_toNode (acyclic : store.Acyclic) (id : NodeId) :
    ScriptTyping.LoopHeaders.isDeclaration (store.toNode id) = isDeclaration store id := by
  rw [ScriptTyping.LoopHeaders.isDeclaration, kind_toNode acyclic, isDeclaration]

-- What the loop does with one child of the header, which stays or goes.
theorem strip_turn (linked : store.WellLinked) (split : store.children id = left ++ child :: right)
    (rest : List NodeId) (removed : Nat) :
    ∃ count after kept, strip id (child :: rest) removed store = strip id rest count after ∧
      InPlace store id [] after ∧ after.label id = store.label id ∧
      after.children id = left ++ (kept ++ right) ∧
      left.map after.toNode = left.map store.toNode ∧
      right.map after.toNode = right.map store.toNode ∧
      kept.map after.toNode = (ScriptTyping.LoopHeaders.strip (store.toNode child)).toList ∧
      (count ≠ 0 ↔ removed ≠ 0 ∨ loses (store.toNode child) = true) := by
  have acyclic := linked.toAcyclic
  have held := mem_of_split split
  have hinted : isTypeHint (store.toNode child) = (store.kind child == "type_annotation") := by
    rw [isTypeHint, kind_toNode acyclic]
  rw [strip, run_get]
  cases hint : store.kind child == "type_annotation" with
  | true =>
      obtain ⟨taken, -, -⟩ := detached linked split
      refine ⟨removed + 1, store.without id child, [], ?_, taken.toInPlace, taken.label, taken.children,
        List.map_congr_left fun other member => taken.reads other (List.mem_append_left _ member),
        List.map_congr_left fun other member => taken.reads other (List.mem_append_right _ member),
        ?_, by simp [loses, hinted, hint]⟩
      · simp only [if_true]
        exact run_remove linked split
      · rw [ScriptTyping.LoopHeaders.strip, hinted, hint, if_pos rfl]
        rfl
  | false =>
      simp only [Bool.false_eq_true, if_false]
      rw [ScriptTyping.LoopHeaders.strip, loses, hinted, hint, isDeclaration_toNode acyclic]
      cases declares : isDeclaration store child with
      | false =>
          refine ⟨removed, store, [child], rfl, .refl linked id, rfl, split, rfl, rfl, rfl, by simp⟩
      | true =>
          obtain ⟨count, after, ran, touched, any⟩ := stripDeclarators_touched removed linked
            (linked.nodup_children child) fun _ member => member
          obtain ⟨before, behind⟩ := touched.toNode_split linked split
          refine ⟨count, after, [child], ?_, touched.up linked held, touched.label_parent linked held,
            (touched.children_parent linked held).trans split, before, behind, ?_, ?_⟩
          · simp only [if_true]
            exact run_bind ran
          · have read := touched.linked.toAcyclic.toNode_eq child
            rw [touched.children, touched.read, touched.label, ← label_toNode acyclic,
              ← children_toNode acyclic] at read
            simp only [Bool.false_eq_true, if_false, if_true, List.map_singleton, read,
              Option.toList_some, Tree.withChildren]
          · rw [any, ← children_toNode acyclic, Bool.false_or, Bool.true_and]
            rfl

theorem strip_reads {items : List NodeId} (removed : Nat) (linked : store.WellLinked)
    (split : store.children id = left ++ (items ++ right)) :
    ∃ count after, strip id items removed store = .ok count after ∧ InPlace store id [] after ∧
      after.toNode id = .node (store.label id) (left.map store.toNode ++
        ((items.map store.toNode).filterMap ScriptTyping.LoopHeaders.strip ++
          right.map store.toNode)) ∧
      (count ≠ 0 ↔ removed ≠ 0 ∨ (items.map store.toNode).any loses = true) := by
  induction items generalizing store left removed with
  | nil =>
      refine ⟨removed, store, rfl, .refl linked id, ?_, by simp⟩
      rw [linked.toAcyclic.toNode_eq, split]
      simp
  | cons child rest ih =>
      have here : store.children id = left ++ child :: (rest ++ right) := split
      obtain ⟨count, middle, kept, turn, inPlace, labelled, children, before, behind, read, some⟩ :=
        strip_turn linked here rest removed
      have further : middle.children id = (left ++ kept) ++ (rest ++ right) := by simpa using children
      obtain ⟨total, after, ran, stripped, whole, any⟩ := ih count inPlace.linked further
      rw [List.map_append, List.map_append] at behind
      obtain ⟨rests, rights⟩ := List.append_inj behind (by simp)
      rw [rests] at whole any
      refine ⟨total, after, turn.trans ran, inPlace.again linked stripped, ?_, ?_⟩
      · rw [whole, labelled, List.map_append, before, read, rights, List.map_cons, List.filterMap_cons]
        cases ScriptTyping.LoopHeaders.strip (store.toNode child) <;> simp
      · rw [any, some, List.map_cons, List.any_cons, Bool.or_eq_true, or_assoc]

theorem header_toNode (acyclic : store.Acyclic) (id : NodeId) :
    ScriptTyping.LoopHeaders.header (store.toNode id).children = (header store id).map store.toNode := by
  rw [ScriptTyping.LoopHeaders.header, children_toNode acyclic, List.takeWhile_map, header]
  congr 2
  funext child
  simp only [Function.comp, Children.inSlot, Tree.slot, label_toNode acyclic]
  rfl

theorem afterHeader_toNode (acyclic : store.Acyclic) (id : NodeId) :
    ScriptTyping.LoopHeaders.afterHeader (store.toNode id).children =
      ((store.children id).dropWhile fun child => (store.label child).slot != some "body").map
        store.toNode := by
  rw [ScriptTyping.LoopHeaders.afterHeader, children_toNode acyclic, List.dropWhile_map]
  congr 2
  funext child
  simp only [Function.comp, Children.inSlot, Tree.slot, label_toNode acyclic]
  rfl

theorem realised (number : Nat) :
    Realises (Rule.linked number .loopHeaders) (Rule.handler number .loopHeaders) := by
  refine ⟨rfl, fun {store id} session linked within => ?_⟩
  have acyclic := linked.toAcyclic
  change Agrees store id (Rewriting.outcome (LoopHeaders.handle id (store, session)))
    (ScriptTyping.LoopHeaders.handle (store.ancestors 2 id) (store.toNode id) session)
  rw [LoopHeaders.handle, run_look, ScriptTyping.LoopHeaders.handle, ScriptTyping.LoopHeaders.declares,
    hasChild_toNode acyclic, header_toNode acyclic]
  have declares : ((header store id).map store.toNode).any ScriptTyping.LoopHeaders.isDeclaration =
      (header store id).any (isDeclaration store) := by
    rw [List.any_map]
    exact congrArg (header store id).any (funext fun child => isDeclaration_toNode acyclic child)
  rw [declares]
  cases announced : store.hasChild id "kind" || (header store id).any (isDeclaration store) with
  | false =>
      simp only [Bool.false_eq_true, if_false, Bool.not_false, if_true]
      exact agrees_same linked id session none
  | true =>
      simp only [if_true, Bool.not_true, Bool.false_eq_true, if_false]
      have whole : store.children id = [] ++ (header store id ++
          (store.children id).dropWhile fun child => (store.label child).slot != some "body") :=
        List.takeWhile_append_dropWhile.symm
      obtain ⟨count, after, ran, inPlace, read, some⟩ := strip_reads 0 linked whole
      have same : after.toNode id = sanitize (store.toNode id) := by
        rw [read, sanitize, Tree.withChildren, label_toNode acyclic, header_toNode acyclic,
          afterHeader_toNode acyclic]
        rfl
      rw [run_edit ran, ← same]
      cases lost : ((header store id).map store.toNode).any loses with
      | false =>
          have none : ¬ count ≠ 0 := fun some' => by simpa [lost] using some.mp some'
          simp only [if_neg none, Bool.false_eq_true, if_false]
          exact ⟨rfl, rfl, rfl, inPlace⟩
      | true =>
          simp only [if_pos (some.mpr (.inr lost)), if_true, kind_toNode acyclic,
            sourceText_toNode acyclic, sourceText_toNode inPlace.linked.toAcyclic]
          exact ⟨rfl, rfl, rfl, inPlace⟩

end LoopHeaders

end Store

end ScriptTyping
