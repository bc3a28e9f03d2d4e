import ScriptTyping.Proofs.Store.Rules

set_option autoImplicit false

namespace ScriptTyping.Store.Functions

open Relation
open ScriptTyping.Functions (parameterKinds structuralKinds)

variable {store after : Store} {id child : NodeId} {left right : List NodeId}

section Names

variable (acyclic : store.Acyclic)

include acyclic

theorem namesOf_toNode (kinds : List String) (id : NodeId) :
    ScriptTyping.Functions.namesOf kinds (store.toNode id) = namesOf store kinds id := by
  rw [ScriptTyping.Functions.namesOf, leaves_toNode acyclic, namesOf]

theorem declaredBy_toNode (statement : NodeId) :
    ScriptTyping.Functions.declaredBy (store.toNode statement) = declaredBy store statement := by
  have names (ids : List NodeId) :
      (ids.map store.toNode).filterMap (·.child? "name") =
        (ids.filterMap fun id => store.child? id (some "name")).map store.toNode := by
    rw [List.filterMap_map, List.map_filterMap]
    exact List.filterMap_congr fun id _ => child?_toNode acyclic id "name"
  have declarators : (store.toNode statement).children.filter (fun child =>
        child.kind == "variable_declarator") =
      ((store.children statement).filter fun child =>
        store.kind child == "variable_declarator").map store.toNode := by
    rw [children_toNode acyclic, List.filter_map]
    congr 2
    funext child
    simp only [Function.comp, kind_toNode acyclic]
  rw [ScriptTyping.Functions.declaredBy, declaredBy, kind_toNode acyclic, declarators]
  simp only [← List.map_cons, names, List.flatMap_map, namesOf_toNode acyclic]

theorem takenNames_toNode (id parameters : NodeId) :
    ScriptTyping.Functions.takenNames (store.toNode id) (store.toNode parameters) =
      takenNames store id parameters := by
  rw [ScriptTyping.Functions.takenNames, takenNames, child?_toNode acyclic, namesOf_toNode acyclic]
  cases store.child? id (some "body") with
  | none => rfl
  | some body =>
      simp only [Option.map_some, kind_toNode acyclic, children_toNode acyclic, List.flatMap_map,
        declaredBy_toNode acyclic]

end Names

theorem read_parenthesizedDraft (store : Store) (bare : NodeId) {tree : Node}
    (read : store.toNode bare = (tree.withTrivia "").withSlot (some "pattern")) :
    (parenthesizedDraft bare tree.trivia).read store = ScriptTyping.Functions.parenthesized tree := by
  rw [ScriptTyping.Functions.parenthesized, ← read]
  rfl

theorem parenthesize_places (linked : store.WellLinked)
    (split : store.children id = left ++ child :: right) :
    ∃ parameters after, parenthesize id child store = .ok parameters after ∧
      Placed store id left right parameters
        (ScriptTyping.Functions.parenthesized (store.toNode child)) after := by
  have held := mem_of_split split
  obtain ⟨led, readLead⟩ := inPlace_setTrivia linked (linked.lt_of_mem held) ""
  have still := (led.children_parent linked held).trans split
  obtain ⟨taken, loose, same⟩ := detached led.linked still
  obtain ⟨slotted, readSlot⟩ := inPlace_setSlot taken.linked loose.within (some "pattern")
  rw [same, readLead] at readSlot
  have made : (parenthesizedDraft child (store.toNode child).trivia).IsMade := trivial
  obtain ⟨confined, fresh⟩ := fresh_graft slotted.linked made (free_singleton.mpr
    ⟨loose.within.trans_le slotted.size, slotted.parent.trans loose.parent⟩)
  rw [read_parenthesizedDraft _ child readSlot] at fresh
  have work := slotted.toConfined.trans taken.linked confined fun other member _ =>
    ⟨other, member, .refl⟩
  refine ⟨_, _, ?_, .behind linked (led.up linked held) (led.label_parent linked held)
    (led.toNode_beside linked split) (exchanged led.linked still work { fresh with
      new := slotted.size.trans fresh.new })⟩
  rw [parenthesize, run_get, run_update, run_remove led.linked still, run_update,
    run_bind (make_eq _ _), Editing.insertAt, run_update, trivia_toNode linked.toAcyclic]
  rfl

theorem lowerPattern_places (linked : store.WellLinked)
    (split : store.children id = left ++ child :: right) (name : String) :
    ∃ identifier after, lowerPattern id child name store = .ok identifier after ∧
      Placed store id left right identifier
        (.leaf "identifier" name (store.toNode child).trivia (some "pattern")) after ∧
      after.Loose id child ∧ after.toNode child = store.toNode child := by
  obtain ⟨taken, loose, same⟩ := detached linked split
  have within := (lt_of_mem_children (mem_of_split split)).trans_le taken.size
  have made : (Draft.leaf "identifier" name (store.trivia child) (some "pattern")).IsMade := trivial
  have placed := inserted_new taken.linked within taken.children made rfl
  obtain ⟨still, read⟩ := placed.kept taken.linked loose within List.not_mem_nil
  rw [trivia_toNode linked.toAcyclic]
  refine ⟨_, _, ?_, .behind linked taken.toInPlace taken.label taken.reads placed, still,
    read.trans same⟩
  rw [lowerPattern, run_get, run_remove linked split, run_bind (make_eq _ _), Editing.insertAt,
    run_update]
  rfl

theorem annotate_reads (linked : store.WellLinked) {parameter pattern : NodeId}
    (first : store.child? parameter (some "pattern") = some pattern) :
    ∃ after, annotate parameter pattern store = .ok () after ∧ InPlace store parameter [] after ∧
      after.toNode parameter =
        ScriptTyping.Functions.annotateParameter (store.toNode parameter) := by
  have acyclic := linked.toAcyclic
  obtain ⟨left, right, split, before, present⟩ := split_of_child? acyclic first
  obtain ⟨after, ran, inPlace, read, -⟩ := insertBehind_places linked split (some "?")
    (TypeHint.unknown.toNode (some "type"))
  refine ⟨after, ran, inPlace, ?_⟩
  rw [read, ScriptTyping.Functions.annotateParameter, Tree.withChildren, label_toNode acyclic,
    children_toNode acyclic, split, List.map_append, List.map_cons,
    Children.insertAfterMarked_split before present]
  rfl

theorem child?_of_split {slot : String} (split : store.children id = left ++ child :: right)
    (before : ∀ other ∈ left, (store.label other).slot ≠ some slot)
    (present : (store.label child).slot = some slot) :
    store.child? id (some slot) = some child := by
  rw [child?, split, List.find?_append, List.find?_eq_none.mpr (by simpa using before), Option.none_or,
    List.find?_cons_of_pos (by simpa using present)]

theorem lower_reads (linked : store.WellLinked) {parameter pattern : NodeId}
    (first : store.child? parameter (some "pattern") = some pattern) (name : String) :
    ∃ statement after, lower parameter pattern name store = .ok statement after ∧
      InPlace store parameter [] after ∧
      after.toNode parameter = ScriptTyping.Functions.annotateParameter
        (ScriptTyping.Functions.renamed name (store.toNode parameter)) ∧
      Fresh store after statement (Bindings.statement (store.toNode pattern) name) := by
  have acyclic := linked.toAcyclic
  obtain ⟨left, right, split, before, present⟩ := split_of_child? acyclic first
  have within := lt_of_mem_children (mem_of_split split)
  obtain ⟨identifier, lowered, ran, placed, loose, same⟩ := lowerPattern_places linked split name
  have renamed : lowered.toNode parameter =
      ScriptTyping.Functions.renamed name (store.toNode parameter) := by
    rw [placed.toNode, ScriptTyping.Functions.renamed, Tree.withChildren, label_toNode acyclic,
      children_toNode acyclic, split, List.map_append, List.map_cons,
      Children.modify_split _ before present]
  have again : lowered.child? parameter (some "pattern") = some identifier := by
    have slot (id : NodeId) : (lowered.label id).slot = (lowered.toNode id).slot :=
      congrArg Label.slot (label_toNode placed.linked.toAcyclic id).symm
    refine child?_of_split placed.children (fun other member => ?_) ?_
    · rw [slot, placed.reads other (List.mem_append_left _ member)]
      simpa [Children.inSlot] using before _ (List.mem_map_of_mem member)
    · rw [slot, placed.read]
      rfl
  obtain ⟨annotated, typed, inPlace, read⟩ := annotate_reads placed.linked again
  have inside := within.trans_le placed.size
  obtain ⟨still, kept⟩ := inPlace.kept placed.linked loose inside List.not_mem_nil
  obtain ⟨statement, after, bound, confined, fresh⟩ :=
    bindPattern_makes inPlace.linked still.within still.parent name
  have whole := placed.toInPlace.again linked inPlace
  obtain ⟨grown, -, -, unchanged⟩ := confined.inPlace inPlace.linked (within.trans_le whole.size)
    fun free member => List.mem_singleton.mp member ▸ still
  refine ⟨statement, after, ?_, whole.trans linked grown fun other member _ => ?_, ?_, ?_⟩
  · rw [lower, run_bind ran, run_bind typed, bound]
  · exact ⟨parameter, List.mem_cons_self,
      List.mem_singleton.mp member ▸ .single (mem_of_split split)⟩
  · rw [unchanged, read, renamed]
  · rw [kept, same] at fresh
    exact { fresh with new := whole.size.trans fresh.new }

theorem changeOf_toNode (acyclic : store.Acyclic) (canLower : Bool) (parameter : NodeId) :
    ScriptTyping.Functions.changeOf canLower (store.toNode parameter) =
      match parameterKinds.contains (store.kind parameter),
        store.child? parameter (some "pattern") with
      | true, some pattern =>
          if store.hasChild parameter "type" then .keep
          else if structuralKinds.contains (store.kind pattern) && canLower then
            .lower (store.toNode pattern)
          else .annotate
      | _, _ => .pass := by
  rw [ScriptTyping.Functions.changeOf, kind_toNode acyclic, child?_toNode acyclic,
    hasChild_toNode acyclic]
  cases parameterKinds.contains (store.kind parameter) with
  | false => rfl
  | true =>
      cases store.child? parameter (some "pattern") with
      | none => rfl
      | some pattern => simp only [Option.map_some, kind_toNode acyclic]; rfl

-- What the loop over the parameters leaves: these children have changed, and statements have been
-- made that stand nowhere yet.
structure Annotated (store : Store) (id : NodeId) (items : List NodeId) (trees : List Node)
    (statements : List NodeId) (bindings : List Node) (after : Store) : Prop
    extends Touched store id items trees after where
  free : after.Free statements
  new : ∀ statement ∈ statements, store.cells.size ≤ statement
  bindings : statements.map after.toNode = bindings

section Annotated

variable {items statements : List NodeId} {trees bindings : List Node} {tree : Node} {later : Store}
  (linked : store.WellLinked) (held : child ∈ store.children id)
  (inPlace : InPlace store child [] after) (read : after.toNode child = tree) (new : child ∉ items)
  (rest : Annotated after id items trees statements bindings later)

include linked held inPlace read new rest

theorem Annotated.keep : Annotated store id (child :: items) (tree :: trees) statements bindings later :=
  { Touched.cons linked held inPlace read new rest.toTouched with
    free := rest.free
    new := fun statement member => inPlace.size.trans (rest.new statement member)
    bindings := rest.bindings }

theorem Annotated.bind {statement : NodeId} {binding : Node}
    (fresh : Fresh store after statement binding) :
    Annotated store id (child :: items) (tree :: trees) (statement :: statements)
      (binding :: bindings) later := by
  have whole := inPlace.up linked held
  have within := lt_of_mem_children held
  obtain ⟨loose, same⟩ := rest.kept inPlace.linked (fresh.loose whole linked within)
    (within.trans_le whole.size) List.not_mem_nil
  have once : statement ∉ statements := fun member =>
    absurd fresh.within (Nat.not_lt.mpr (rest.new statement member))
  refine { Touched.cons linked held inPlace read new rest.toTouched with
    free := ⟨List.nodup_cons.mpr ⟨once, rest.free.1⟩, fun other member => ?_⟩
    new := fun other member => ?_
    bindings := ?_ }
  · rcases List.mem_cons.mp member with rfl | old
    · exact ⟨loose.within, loose.parent⟩
    · exact rest.free.2 other old
  · rcases List.mem_cons.mp member with rfl | old
    · exact fresh.new
    · exact inPlace.size.trans (rest.new other old)
  · rw [List.map_cons, same, fresh.read, rest.bindings]

end Annotated

-- What the loop does with one parameter, and what it goes on with.
structure Turn (taken : List String) (canLower : Bool) (store : Store) (parameter : NodeId)
    (number : Nat) (session : Session) (after : Store) (made : Option (NodeId × Node)) (next : Nat)
    (noted : Session) : Prop where
  inPlace : InPlace store parameter [] after
  fresh : ∀ one ∈ made, Fresh store after one.1 one.2
  linked {rest statements : List NodeId} {last : Store × Session}
    (later : annotateParameters taken canLower rest next (after, noted) = .ok statements last) :
    annotateParameters taken canLower (parameter :: rest) number (store, session) =
      .ok ((made.map (·.1)).toList ++ statements) last
  tree (rest : List Node) :
    ScriptTyping.Functions.annotateParameters taken canLower (store.toNode parameter :: rest) number
        session =
      let later := ScriptTyping.Functions.annotateParameters taken canLower rest next noted
      ⟨after.toNode parameter :: later.children, (made.map (·.2)).toList ++ later.bindings,
        later.session⟩

section Turn

variable (taken : List String) (canLower : Bool) (parameter : NodeId) (number : Nat)
  (session : Session) (linked : store.WellLinked)

include linked

section Untyped

variable {parameter} {pattern : NodeId}
  (listed : parameterKinds.contains (store.kind parameter) = true)
  (first : store.child? parameter (some "pattern") = some pattern)
  (typed : store.hasChild parameter "type" = false)

include listed first typed

theorem turn_lower {canLower : Bool}
    (lowers : (structuralKinds.contains (store.kind pattern) && canLower) = true) :
    ∃ after made next noted,
      Turn taken canLower store parameter number session after made next noted := by
  have acyclic := linked.toAcyclic
  have change := changeOf_toNode acyclic canLower parameter
  simp only [listed, first, typed, lowers, Bool.false_eq_true, if_false, if_true] at change
  let fresh := FreshNames.next taken number
  obtain ⟨statement, after, ran, inPlace, read, made⟩ :=
    lower_reads linked first (FreshNames.name fresh)
  refine ⟨after, some (statement, Bindings.statement (store.toNode pattern) (FreshNames.name fresh)),
    fresh + 1, session.record (.edit (store.kind parameter) (store.sourceText parameter)
      (after.sourceText parameter)), inPlace, ?_, fun later => ?_, fun rest => ?_⟩
  · rintro _ ⟨⟩
    exact made
  · rw [annotateParameters, run_look]
    simp only [listed, first, typed, lowers, Bool.false_eq_true, if_false, if_true]
    rw [run_edit ran, run_look, run_record, run_bind later]
    rfl
  · rw [ScriptTyping.Functions.annotateParameters, change,
      ← sourceText_toNode inPlace.linked.toAcyclic, read, kind_toNode acyclic,
      sourceText_toNode acyclic]
    rfl

theorem turn_annotate {canLower : Bool}
    (lowers : (structuralKinds.contains (store.kind pattern) && canLower) = false) :
    ∃ after made next noted,
      Turn taken canLower store parameter number session after made next noted := by
  have acyclic := linked.toAcyclic
  have change := changeOf_toNode acyclic canLower parameter
  simp only [listed, first, typed, lowers, Bool.false_eq_true, if_false] at change
  obtain ⟨after, ran, inPlace, read⟩ := annotate_reads linked first
  refine ⟨after, none, number, session.record (.edit (store.kind parameter)
    (store.sourceText parameter) (after.sourceText parameter)), inPlace, by simp, fun later => ?_,
    fun rest => ?_⟩
  · rw [annotateParameters, run_look]
    simp only [listed, first, typed, lowers, Bool.false_eq_true, if_false]
    rw [run_edit ran, run_look, run_record, later]
    rfl
  · rw [ScriptTyping.Functions.annotateParameters, change,
      ← sourceText_toNode inPlace.linked.toAcyclic, read, kind_toNode acyclic,
      sourceText_toNode acyclic]
    rfl

end Untyped

theorem annotateParameters_turn :
    ∃ after made next noted,
      Turn taken canLower store parameter number session after made next noted := by
  have acyclic := linked.toAcyclic
  have change := changeOf_toNode acyclic canLower parameter
  have unchanged := InPlace.refl linked parameter
  have nothing : ∀ one ∈ (none : Option (NodeId × Node)), Fresh store store one.1 one.2 := by simp
  cases listed : parameterKinds.contains (store.kind parameter) with
  | false =>
      rw [listed] at change
      refine ⟨store, none, number, session, unchanged, nothing, fun later => ?_, fun rest => ?_⟩
      · rw [annotateParameters, run_look, listed]
        exact later
      · rw [ScriptTyping.Functions.annotateParameters, change]
        rfl
  | true =>
      cases first : store.child? parameter (some "pattern") with
      | none =>
          rw [listed, first] at change
          refine ⟨store, none, number, session, unchanged, nothing, fun later => ?_, fun rest => ?_⟩
          · rw [annotateParameters, run_look, listed, first]
            exact later
          · rw [ScriptTyping.Functions.annotateParameters, change]
            rfl
      | some pattern =>
          cases typed : store.hasChild parameter "type" with
          | true =>
              simp only [listed, first, typed, if_true] at change
              refine ⟨store, none, number, session.record (.decision (store.sourceText parameter)
                "kept" "explicit annotation"), unchanged, nothing, fun later => ?_, fun rest => ?_⟩
              · rw [annotateParameters, run_look]
                simp only [listed, first, typed, if_true]
                exact later
              · rw [ScriptTyping.Functions.annotateParameters, change, sourceText_toNode acyclic]
                rfl
          | false =>
              cases lowers : structuralKinds.contains (store.kind pattern) && canLower with
              | true => exact turn_lower taken number session linked listed first typed lowers
              | false => exact turn_annotate taken number session linked listed first typed lowers

end Turn

theorem annotateParameters_annotated (taken : List String) (canLower : Bool) {items : List NodeId}
    (number : Nat) (session : Session) (linked : store.WellLinked) (distinct : items.Nodup)
    (held : ∀ item ∈ items, item ∈ store.children id) :
    ∃ statements after,
      annotateParameters taken canLower items number (store, session) = .ok statements (after,
        (ScriptTyping.Functions.annotateParameters taken canLower (items.map store.toNode) number
          session).session) ∧
      Annotated store id items
        (ScriptTyping.Functions.annotateParameters taken canLower (items.map store.toNode) number
          session).children statements
        (ScriptTyping.Functions.annotateParameters taken canLower (items.map store.toNode) number
          session).bindings after := by
  induction items generalizing store number session with
  | nil =>
      exact ⟨[], store, rfl, { Touched.nil linked id with
        free := .nil, new := fun _ member => absurd member List.not_mem_nil, bindings := rfl }⟩
  | cons parameter rest ih =>
      obtain ⟨new, later⟩ := List.nodup_cons.mp distinct
      have here := held parameter List.mem_cons_self
      have there {other : NodeId} (member : other ∈ rest) : other ∈ store.children id :=
        held other (List.mem_cons_of_mem _ member)
      obtain ⟨middle, made, next, noted, turn⟩ :=
        annotateParameters_turn taken canLower parameter number session linked
      have inPlace := turn.inPlace
      have same := inPlace.map_toNode_siblings linked here new fun _ => there
      obtain ⟨statements, after, ran, annotated⟩ := ih next noted inPlace.linked later
        fun other member => (inPlace.children_parent linked here).symm ▸ there member
      rw [same] at ran annotated
      rw [List.map_cons, turn.tree]
      refine ⟨_, after, turn.linked ran, ?_⟩
      cases made with
      | none => exact .keep linked here inPlace rfl new annotated
      | some one => exact .bind linked here inPlace rfl new annotated (turn.fresh one rfl)

theorem slot_toNode (acyclic : store.Acyclic) (id : NodeId) :
    (store.toNode id).slot = (store.label id).slot :=
  congrArg Label.slot (label_toNode acyclic id)

-- Another child has taken a place, but not in this slot.
theorem child?_elsewhere {slot : String} {block : NodeId} (acyclic : store.Acyclic)
    (acyclicAfter : after.Acyclic) (split : store.children id = left ++ child :: right)
    (children : after.children id = left ++ block :: right)
    (reads : ∀ other ∈ left ++ right, after.toNode other = store.toNode other)
    (old : (store.toNode child).slot ≠ some slot) (new : (after.toNode block).slot ≠ some slot) :
    after.child? id (some slot) = store.child? id (some slot) ∧
      ∀ found, store.child? id (some slot) = some found →
        after.toNode found = store.toNode found := by
  have same {other : NodeId} (beside : other ∈ left ++ right) :
      ((after.label other).slot == some slot) = ((store.label other).slot == some slot) := by
    rw [← slot_toNode acyclicAfter, reads other beside, slot_toNode acyclic]
  rw [slot_toNode acyclicAfter] at new
  rw [slot_toNode acyclic] at old
  refine ⟨?_, fun found present => ?_⟩
  · rw [child?, child?, ← List.head?_filter, ← List.head?_filter, children, split,
      List.filter_append, List.filter_append, List.filter_cons_of_neg (by simpa using new),
      List.filter_cons_of_neg (by simpa using old),
      List.filter_congr fun item member => same (List.mem_append_left _ member),
      List.filter_congr fun item member => same (List.mem_append_right _ member)]
  · refine reads found ?_
    have member := List.mem_of_find?_eq_some present
    have slotted := List.find?_some present
    have apart : found ≠ child := by
      rintro rfl
      exact old (by simpa using slotted)
    rw [split] at member
    simpa [apart] using member

theorem withBindings?_cons (binding : Node) (rest : List Node) (tree : Node) :
    ScriptTyping.Functions.withBindings? (binding :: rest) tree =
      (tree.child? "body").bind fun body =>
        (Bindings.prepend? (Bindings.asBlock body) (binding :: rest)).map fun block =>
          tree.withChildren (Children.replace "body" block tree.children) := by
  rw [ScriptTyping.Functions.withBindings?.eq_def]
  cases tree.child? "body" <;> rfl

theorem isBlock_of_prepend?_none {body : Node} {trees : List Node}
    (none : Bindings.prepend? (Bindings.asBlock body) trees = none) :
    body.kind = Bindings.blockKind := by
  by_contra other
  rw [Bindings.asBlock, if_neg (by simpa using other)] at none
  simp [Bindings.prepend?, Bindings.returning, Tree.branch, Tree.mark, Tree.leaf,
    Bindings.insertAfterBrace?, Tree.kind] at none

theorem slot_of_prepend? {block tree : Node} {trees : List Node}
    (some : Bindings.prepend? block trees = some tree) : tree.slot = block.slot := by
  obtain ⟨children, -, rfl⟩ := Option.map_eq_some_iff.mp some
  rfl

theorem slot_asBlock {body : Node} (slot : body.slot = some "body") :
    (Bindings.asBlock body).slot = some "body" := by
  rw [Bindings.asBlock]
  split
  next => exact slot
  next => rfl

theorem rebind_reads (linked : store.WellLinked) {statements : List NodeId}
    (distinct : statements.Nodup) (loose : ∀ free ∈ statements, store.Loose id free) :
    (ScriptTyping.Functions.withBindings? (statements.map store.toNode) (store.toNode id) = none ∧
      ∃ fault, rebind id statements store = .error fault store) ∨
    ∃ after, rebind id statements store = .ok () after ∧ InPlace store id statements after ∧
      ScriptTyping.Functions.withBindings? (statements.map store.toNode) (store.toNode id) =
        some (after.toNode id) ∧
      ∀ slot ≠ "body", after.child? id (some slot) = store.child? id (some slot) ∧
        ∀ found, store.child? id (some slot) = some found →
          after.toNode found = store.toNode found := by
  have acyclic := linked.toAcyclic
  cases statements with
  | nil => exact .inr ⟨store, rfl, .refl linked id, rfl, fun slot _ => ⟨rfl, fun _ _ => rfl⟩⟩
  | cons statement rest =>
      rw [List.map_cons, withBindings?_cons, child?_toNode acyclic, ← List.map_cons]
      cases first : store.child? id (some "body") with
      | none => exact .inl ⟨rfl, .noBody, run_error (blockBody_missing first)⟩
      | some body =>
          rw [Option.map_some, Option.bind_some]
          obtain ⟨left, right, split, before, present⟩ := split_of_child? acyclic first
          have within := lt_of_mem_children (mem_of_split split)
          obtain ⟨block, middle, ran, placed, already⟩ := blockBody_places linked first split
          have held := mem_of_split placed.children
          have kept {free : NodeId} (member : free ∈ statement :: rest) :=
            placed.kept linked (loose free member) within List.not_mem_nil
          have trees : (statement :: rest).map middle.toNode =
              (statement :: rest).map store.toNode :=
            List.map_congr_left fun free member => (kept member).2
          have prepended := prepend_reads placed.linked (placed.linked.lt_of_mem held) distinct
            fun free member => (kept member).1.below placed.linked (.single held)
          rw [trees, placed.read] at prepended
          rcases prepended with ⟨failed, fault⟩ | ⟨after, made, inPlace, whole⟩
          · have kind := isBlock_of_prepend?_none failed
            rw [Tree.kind, label_toNode acyclic] at kind
            obtain rfl := already kind
            refine .inl ⟨by rw [failed]; rfl, .unopenedBlock, ?_⟩
            rw [rebind, run_bind ran, fault]
            exact List.cons_ne_nil _ _
          · obtain ⟨children, beside, read⟩ := placed.onward inPlace
            have bodySlot : (store.toNode body).slot = some "body" :=
              (Children.inSlot_iff "body" _).mp present
            have blockSlot : (after.toNode block).slot = some "body" := by
              rw [slot_of_prepend? whole, slot_asBlock bodySlot]
            refine .inr ⟨after, ?_, ?_, ?_, fun slot other => ?_⟩
            · rw [rebind, run_bind ran, made]
              exact List.cons_ne_nil _ _
            · exact (placed.widen loose fun _ member => absurd member List.not_mem_nil).trans linked
                (inPlace.up placed.linked held) fun free member _ =>
                  ⟨free, List.mem_cons_of_mem _ member, .refl⟩
            · rw [whole, Option.map_some, read, Tree.withChildren, label_toNode acyclic,
                children_toNode acyclic, split, List.map_append, List.map_cons, Children.replace,
                Children.modify_split _ before present]
            · refine child?_elsewhere acyclic inPlace.linked.toAcyclic split children beside ?_ ?_
              · rw [bodySlot]
                exact fun same => other (Option.some.inj same).symm
              · rw [blockSlot]
                exact fun same => other (Option.some.inj same).symm

theorem takeWhile_split {α : Type} {test : α → Bool} {items left right : List α} {item : α}
    (split : items = left ++ item :: right) (before : ∀ other ∈ left, test other = true)
    (here : test item = false) : items.takeWhile test = left := by
  rw [split, List.takeWhile_append_of_pos before, List.takeWhile_cons_of_neg (by simp [here]),
    List.append_nil]

theorem resultless?_toNode (linked : store.WellLinked) (id : NodeId) :
    ScriptTyping.Functions.resultless? (store.toNode id) =
      (resultless? store id).map store.toNode := by
  have acyclic := linked.toAcyclic
  rw [ScriptTyping.Functions.resultless?, resultless?, kind_toNode acyclic, child?_toNode acyclic]
  cases method : store.kind id == "method_definition" with
  | false => rfl
  | true =>
      simp only [if_true]
      cases first : store.child? id (some "name") with
      | none => rfl
      | some name =>
          obtain ⟨left, right, split, before, present⟩ := split_of_child? acyclic first
          have trees : (store.toNode id).children =
              left.map store.toNode ++ store.toNode name :: right.map store.toNode := by
            rw [children_toNode acyclic, split, List.map_append, List.map_cons]
          have other : ∀ child ∈ left, (child != name) = true := fun child member =>
            bne_iff_ne.mpr (linked.sibling_of_split split (.inl member)).2
          rw [Option.map_some, Option.filter_some, Option.filter_some, sourceText_toNode acyclic,
            takeWhile_split trees (fun tree member => by rw [before tree member]; rfl)
              (by rw [present]; rfl),
            takeWhile_split split other (bne_self_eq_false name), List.any_map]
          have setter : (fun child => child.isLeaf && child.kind == "set") ∘ store.toNode =
              fun child => store.isLeaf child && store.kind child == "set" := by
            funext child
            simp only [Function.comp, isLeaf_toNode acyclic, kind_toNode acyclic]
          rw [setter]
          split <;> rfl

theorem annotateResult_reads (linked : store.WellLinked) {parameters : NodeId}
    (first : store.child? id (some "parameters") = some parameters) (session : Session) :
    let outcome :=
      ScriptTyping.Functions.annotateResult (store.toNode id) (store.toNode parameters) session
    ∃ after, annotateResult id parameters (store, session) = .ok () (after, outcome.2) ∧
      InPlace store id [] after ∧ after.toNode id = outcome.1 := by
  have acyclic := linked.toAcyclic
  rw [annotateResult, run_look, ScriptTyping.Functions.annotateResult, hasChild_toNode acyclic,
    resultless?_toNode linked]
  cases typed : store.hasChild id "return_type" with
  | true => exact ⟨store, rfl, .refl linked id, rfl⟩
  | false =>
      simp only [Bool.false_eq_true, if_false]
      cases resultless? store id with
      | some name =>
          refine ⟨store, ?_, .refl linked id, rfl⟩
          simp only [Option.map_some, sourceText_toNode acyclic]
          rfl
      | none =>
          simp only [Option.map_none]
          obtain ⟨left, right, split, before, present⟩ := split_of_child? acyclic first
          obtain ⟨after, ran, inPlace, read, reads⟩ := insertBehind_places linked split none
            (TypeHint.unknown.toNode (some "return_type"))
          refine ⟨after, ?_, inPlace, ?_⟩
          · rw [run_edit ran, run_look, ← sourceText_toNode inPlace.linked.toAcyclic,
              reads parameters (mem_of_split split), kind_toNode acyclic]
            rfl
          · rw [read, Tree.withChildren, label_toNode acyclic, children_toNode acyclic, split,
              List.map_append, List.map_cons, Children.insertAfter_split before present]
            rfl

theorem parametersOf_reads (linked : store.WellLinked) (id : NodeId) :
    (parametersOf id store = .ok none store ∧
      ScriptTyping.Functions.withParameters? (store.toNode id) = none) ∨
    ∃ parameters after, parametersOf id store = .ok (some parameters) after ∧
      InPlace store id [] after ∧
      ScriptTyping.Functions.withParameters? (store.toNode id) = some (after.toNode id) ∧
      after.child? id (some "parameters") = some parameters := by
  have acyclic := linked.toAcyclic
  rw [parametersOf, run_get, ScriptTyping.Functions.withParameters?, hasChild_toNode acyclic,
    hasChild_toNode acyclic, hasChild, hasChild]
  cases listed : store.child? id (some "parameters") with
  | some parameters => exact .inr ⟨parameters, store, rfl, .refl linked id, rfl, listed⟩
  | none =>
      cases first : store.child? id (some "parameter") with
      | none => exact .inl ⟨rfl, rfl⟩
      | some bare =>
          obtain ⟨left, right, split, before, present⟩ := split_of_child? acyclic first
          obtain ⟨parameters, after, ran, placed⟩ := parenthesize_places linked split
          have slot (other : NodeId) : (after.label other).slot = (after.toNode other).slot :=
            (slot_toNode placed.linked.toAcyclic other).symm
          refine .inr ⟨parameters, after, ?_, placed.toInPlace, ?_, ?_⟩
          · simp only [Functor.map, EStateM.map, ran]
          · simp only [Option.isSome_none, Bool.false_eq_true, if_false, Option.isSome_some, if_true]
            rw [placed.toNode, Tree.withChildren, label_toNode acyclic, children_toNode acyclic, split,
              List.map_append, List.map_cons, Children.modify_split _ before present]
          · refine child?_of_split placed.children (fun other member => ?_) ?_
            · have absent := List.find?_eq_none.mp listed other
                (split ▸ List.mem_append_left _ member)
              rw [slot, placed.reads other (List.mem_append_left _ member), slot_toNode acyclic]
              simpa using absent
            · rw [slot, placed.read]
              rfl

theorem child?_kept {given : List NodeId} (linked : store.WellLinked)
    (held : child ∈ store.children id) (inPlace : InPlace store child given after)
    (label : after.label child = store.label child) (slot : String) :
    after.child? id (some slot) = store.child? id (some slot) := by
  have same : ∀ other ∈ store.children id,
      ((after.label other).slot == some slot) = ((store.label other).slot == some slot) := by
    intro other sibling
    by_cases here : other = child
    · rw [here, label]
    · rw [← slot_toNode inPlace.linked.toAcyclic, inPlace.toNode_sibling linked held sibling here,
        slot_toNode linked.toAcyclic]
  rw [child?, child?, inPlace.children_parent linked held, ← List.head?_filter, ← List.head?_filter,
    List.filter_congr same]

-- What is left to do once the parameters are annotated.
theorem completed (linked : store.WellLinked) {parameters : NodeId} {statements : List NodeId}
    (session : Session) (distinct : statements.Nodup)
    (loose : ∀ free ∈ statements, store.Loose id free)
    (first : store.child? id (some "parameters") = some parameters) :
    let result := Rewriting.outcome ((Rewriting.edit (rebind id statements) >>= fun _ =>
      annotateResult id parameters) (store, session))
    let outcome : Outcome Session :=
      match ScriptTyping.Functions.withBindings? (statements.map store.toNode) (store.toNode id) with
      | none => ⟨store.toNode id, session, some .unopenedBlock⟩
      | some tree =>
          let (tree, session) :=
            ScriptTyping.Functions.annotateResult tree (store.toNode parameters) session
          ⟨tree, session, none⟩
    result.store.toNode id = outcome.tree ∧ result.state = outcome.state ∧
      result.fault = outcome.fault ∧ InPlace store id statements result.store := by
  rcases rebind_reads linked distinct loose with
    ⟨unopened, fault, failed⟩ | ⟨bound, ran, inPlace, opened, elsewhere⟩
  · have stopped : Rewriting.edit (rebind id statements) (store, session) =
        .error .unopenedBlock (store, session) := by
      simp only [Rewriting.edit, failed]
    rw [run_error stopped, unopened]
    exact ⟨rfl, rfl, rfl, (InPlace.refl linked id).widen loose fun _ member =>
      absurd member List.not_mem_nil⟩
  · obtain ⟨again, same⟩ := elsewhere "parameters" (by decide)
    obtain ⟨after, typed, annotated, read⟩ :=
      annotateResult_reads inPlace.linked (again.trans first) session
    rw [same parameters first] at typed read
    rw [run_edit ran, typed, opened]
    exact ⟨read, rfl, rfl, inPlace.again linked annotated⟩

theorem realised (number : Nat) :
    Realises (Rule.linked number .functions) (Rule.handler number .functions) := by
  refine ⟨rfl, fun {store id} session linked within => ?_⟩
  change Agrees store id (Rewriting.outcome (handle id (store, session)))
    (ScriptTyping.Functions.handle (store.ancestors 2 id) (store.toNode id) session)
  rw [handle, ScriptTyping.Functions.handle]
  rcases parametersOf_reads linked id with
    ⟨ran, absent⟩ | ⟨parameters, opened, ran, start, whole, first⟩
  · rw [run_edit ran, absent]
    exact agrees_same linked id session none
  · have held := List.mem_of_find?_eq_some first
    have acyclic := start.linked.toAcyclic
    obtain ⟨statements, annotated, typed, done⟩ := annotateParameters_annotated
      (takenNames opened id parameters) (opened.hasChild id "body") 0 session start.linked
      (start.linked.nodup_children parameters) fun _ member => member
    simp only [run_edit ran, run_look, run_bind typed, whole, child?_toNode acyclic, first,
      Option.map_some, takenNames_toNode acyclic, hasChild_toNode acyclic, children_toNode acyclic]
    generalize ScriptTyping.Functions.annotateParameters (takenNames opened id parameters)
      (opened.hasChild id "body") ((opened.children parameters).map opened.toNode) 0 session =
        signature at done ⊢
    have above := done.up start.linked held
    have list : (opened.toNode parameters).withChildren signature.children =
        annotated.toNode parameters := by
      rw [done.linked.toAcyclic.toNode_eq, done.label, done.children, done.read, Tree.withChildren,
        label_toNode acyclic]
    have tree : (opened.toNode id).withChildren (Children.replace "parameters"
        (annotated.toNode parameters) ((opened.children id).map opened.toNode)) =
        annotated.toNode id := by
      rw [toNode_in_slot start.linked first done.toInPlace, children_toNode acyclic]
    have loose : ∀ statement ∈ statements, annotated.Loose id statement := by
      intro statement member
      obtain ⟨inside, parent⟩ := done.free.2 statement member
      exact above.loose_new start.linked (lt_of_mem_children held) (done.new statement member) inside
        parent
    have still := (child?_kept start.linked held done.toInPlace done.label "parameters").trans first
    obtain ⟨read, state, fault, inPlace⟩ :=
      completed done.linked signature.session done.free.1 loose still
    rw [list, tree, ← done.bindings]
    have new {statement : NodeId} (member : statement ∈ statements) :
        ¬ statement < opened.cells.size := Nat.not_lt.mpr (done.new statement member)
    refine ⟨read, state, fault, start.again linked (above.trans start.linked inPlace ?_)⟩
    exact fun statement member old => absurd old (new member)

end ScriptTyping.Store.Functions
