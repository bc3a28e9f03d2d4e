import ScriptTyping.Proofs.Node.Slots
import ScriptTyping.Rule.Functions

set_option autoImplicit false

namespace ScriptTyping

namespace Bindings

theorem insertAfterBrace?_cases {statements children inserted : List Node}
    (some : insertAfterBrace? statements children = some inserted) :
    ∃ left brace rest, children = left ++ brace :: rest ∧ brace.kind = "\x7b" ∧
      (∀ child ∈ left, child.kind ≠ "\x7b") ∧
      inserted =
        left ++ brace :: (statements.map (Tree.withTrivia (indentBefore rest)) ++ setOff rest) := by
  induction children generalizing inserted with
  | nil => simp [insertAfterBrace?] at some
  | cons child rest ih =>
      by_cases opening : child.kind = "\x7b"
      · simp only [insertAfterBrace?, opening, beq_self_eq_true, if_true] at some
        exact ⟨[], child, rest, rfl, opening, by simp, (Option.some.inj some).symm⟩
      · simp only [insertAfterBrace?, beq_iff_eq, opening, if_false, Option.map_eq_some_iff] at some
        obtain ⟨shorter, found, rfl⟩ := some
        obtain ⟨left, brace, later, rfl, open', before, rfl⟩ := ih found
        exact ⟨child :: left, brace, later, rfl, open', by simpa [opening] using before, rfl⟩

theorem prepend?_cases {block extended : Node} {statements : List Node}
    (some : prepend? block statements = some extended) :
    ∃ left brace rest, block.children = left ++ brace :: rest ∧ brace.kind = "\x7b" ∧
      (∀ child ∈ left, child.kind ≠ "\x7b") ∧
      extended = block.withChildren
        (left ++ brace :: (statements.map (Tree.withTrivia (indentBefore rest)) ++ setOff rest)) := by
  simp only [prepend?, Option.map_eq_some_iff] at some
  obtain ⟨inserted, found, rfl⟩ := some
  obtain ⟨left, brace, rest, same, opening, before, rfl⟩ := insertAfterBrace?_cases found
  exact ⟨left, brace, rest, same, opening, before, rfl⟩

end Bindings

namespace Functions

inductive Annotates (canLower : Bool) : List Node → List Node → List Node → Prop where
  | nil : Annotates canLower [] [] []
  | same {child : Node} {rest after bindings : List Node}
      (settled : changeOf canLower child = .pass ∨ changeOf canLower child = .keep)
      (later : Annotates canLower rest after bindings) :
      Annotates canLower (child :: rest) (child :: after) bindings
  | typed {child : Node} {rest after bindings : List Node}
      (change : changeOf canLower child = .annotate)
      (later : Annotates canLower rest after bindings) :
      Annotates canLower (child :: rest) (annotateParameter child :: after) bindings
  | lowered {child pattern : Node} {rest after bindings : List Node} (number : Nat)
      (change : changeOf canLower child = .lower pattern)
      (later : Annotates canLower rest after bindings) :
      Annotates canLower (child :: rest)
        (annotateParameter (renamed (FreshNames.name number) child) :: after)
        (Bindings.statement pattern (FreshNames.name number) :: bindings)

theorem changeOf_cases (canLower : Bool) (child : Node) :
    (changeOf canLower child = .pass ∧
        (child.kind ∉ parameterKinds ∨ child.child? "pattern" = none)) ∨
      (child.kind ∈ parameterKinds ∧ ∃ pattern, child.child? "pattern" = some pattern ∧
        ((changeOf canLower child = .keep ∧ child.hasChild "type" = true) ∨
          (changeOf canLower child = .lower pattern ∧ child.hasChild "type" = false ∧
            pattern.kind ∈ structuralKinds ∧ canLower = true) ∨
          (changeOf canLower child = .annotate ∧ child.hasChild "type" = false ∧
            (pattern.kind ∈ structuralKinds → canLower = false)))) := by
  unfold changeOf
  by_cases kind : child.kind ∈ parameterKinds
  · cases present : child.child? "pattern" with
    | none => simp [kind]
    | some pattern =>
        refine .inr ⟨kind, pattern, rfl, ?_⟩
        cases typed : child.hasChild "type" with
        | true => simp [kind]
        | false =>
            by_cases structural : pattern.kind ∈ structuralKinds <;>
              cases canLower <;> simp [kind, structural]
  · simp [kind]

theorem changeOf_lower {canLower : Bool} {child pattern : Node}
    (change : changeOf canLower child = .lower pattern) :
    child.kind ∈ parameterKinds ∧ child.child? "pattern" = some pattern ∧
      child.hasChild "type" = false ∧ pattern.kind ∈ structuralKinds ∧ canLower = true := by
  rcases changeOf_cases canLower child with
    ⟨pass, _⟩ | ⟨kind, shown, present, ⟨keep, _⟩ | ⟨lower, rest⟩ | ⟨annotate, _⟩⟩
  · simp [pass] at change
  · simp [keep] at change
  · rw [lower] at change
    cases change
    exact ⟨kind, present, rest⟩
  · simp [annotate] at change

theorem changeOf_annotate {canLower : Bool} {child : Node}
    (change : changeOf canLower child = .annotate) :
    child.kind ∈ parameterKinds ∧ ∃ pattern, child.child? "pattern" = some pattern ∧
      child.hasChild "type" = false ∧ (pattern.kind ∈ structuralKinds → canLower = false) := by
  rcases changeOf_cases canLower child with
    ⟨pass, _⟩ | ⟨kind, shown, present, ⟨keep, _⟩ | ⟨lower, _⟩ | ⟨_, rest⟩⟩
  · simp [pass] at change
  · simp [keep] at change
  · simp [lower] at change
  · exact ⟨kind, shown, present, rest⟩

theorem not_parameter_of_structural {kind : String} (structural : kind ∈ structuralKinds) :
    kind ∉ parameterKinds := by
  simp only [structuralKinds, List.mem_cons, List.not_mem_nil, or_false] at structural
  rcases structural with rfl | rfl <;> decide

theorem parenthesized_parameter {bare child : Node}
    (member : child ∈ (parenthesized bare).children) (kind : child.kind ∈ parameterKinds) :
    child = .branch "required_parameter"
      [(bare.withTrivia "").withSlot (some "pattern")] none := by
  rcases (by simpa [parenthesized, Tree.branch] using member) with rfl | rfl | rfl
  · exact absurd kind (show "(" ∉ parameterKinds by decide)
  · rfl
  · exact absurd kind (by decide)

theorem annotates_annotateParameters (taken : List String) (canLower : Bool)
    (children : List Node) (number : Nat) (session : Session) :
    Annotates canLower children (annotateParameters taken canLower children number session).children
      (annotateParameters taken canLower children number session).bindings := by
  induction children generalizing number session with
  | nil => exact .nil
  | cons child rest ih =>
      rw [annotateParameters]
      cases change : changeOf canLower child with
      | pass => exact .same (.inl change) (ih _ _)
      | keep => exact .same (.inr change) (ih _ _)
      | annotate => exact .typed change (ih _ _)
      | lower pattern => exact .lowered _ change (ih _ _)

theorem Annotates.lowered_of_ne_nil {canLower : Bool} {before after bindings : List Node}
    (annotates : Annotates canLower before after bindings) (nonempty : bindings ≠ []) :
    ∃ child pattern, child ∈ before ∧ changeOf canLower child = .lower pattern := by
  induction annotates with
  | nil => exact absurd rfl nonempty
  | same settled later ih =>
      obtain ⟨child, pattern, member, change⟩ := ih nonempty
      exact ⟨child, pattern, by simp [member], change⟩
  | typed change later ih =>
      obtain ⟨child, pattern, member, change⟩ := ih nonempty
      exact ⟨child, pattern, by simp [member], change⟩
  | @lowered child pattern _ _ _ number change later ih =>
      exact ⟨child, pattern, by simp, change⟩

theorem typed_split {child pattern : Node} (present : child.child? "pattern" = some pattern) :
    ∃ left middle rest, child.children = left ++ pattern :: (middle ++ rest) ∧
      annotateParameter child = child.withChildren
        (left ++ pattern :: (middle ++ TypeHint.unknown.toNode (some "type") :: rest)) ∧
      ∀ name, annotateParameter (renamed name child) = child.withChildren
        (left ++ .leaf "identifier" name pattern.trivia (some "pattern") ::
          (middle ++ TypeHint.unknown.toNode (some "type") :: rest)) := by
  obtain ⟨left, right, same, before, inside⟩ := (Tree.child?_eq_some_iff _ _ _).mp present
  obtain ⟨middle, rest, rfl, behind⟩ :=
    Children.insertBehind_eq "?" (TypeHint.unknown.toNode (some "type")) right
  refine ⟨left, middle, rest, same, ?_, fun name => ?_⟩
  · rw [annotateParameter, same, Children.insertAfterMarked_split before inside, behind]
  · have named : Children.inSlot "pattern"
        (.leaf "identifier" name pattern.trivia (some "pattern")) = true := by
      simp [Children.inSlot, Tree.leaf, Tree.slot]
    rw [annotateParameter, renamed, same, Children.modify_split _ before inside]
    simp only [Tree.children_withChildren]
    rw [Children.insertAfterMarked_split before named, behind]
    rfl

theorem withParameters?_cases {tree started : Node}
    (start : withParameters? tree = some started) :
    (tree.hasChild "parameters" = true ∧ started = tree) ∨
      (tree.hasChild "parameters" = false ∧ ∃ bare left right,
        tree.child? "parameter" = some bare ∧ tree.children = left ++ bare :: right ∧
        started = tree.withChildren (left ++ parenthesized bare :: right)) := by
  unfold withParameters? at start
  cases present : tree.hasChild "parameters" with
  | true => exact .inl ⟨rfl, by simpa [present] using start.symm⟩
  | false =>
      simp only [present, Bool.false_eq_true, if_false] at start
      split at start
      next single =>
        obtain ⟨bare, found⟩ := Tree.child?_of_hasChild single
        obtain ⟨left, right, same, before, inside⟩ := (Tree.child?_eq_some_iff _ _ _).mp found
        refine .inr ⟨rfl, bare, left, right, found, same, ?_⟩
        rw [same, Children.modify_split parenthesized before inside] at start
        exact (Option.some.inj start).symm
      next => simp at start

theorem label_started {tree started : Node} (start : withParameters? tree = some started) :
    started.label = tree.label := by
  rcases withParameters?_cases start with ⟨_, rfl⟩ | ⟨_, _, _, _, _, _, rfl⟩ <;> rfl

theorem withParameters?_none {tree : Node} (none : withParameters? tree = none) :
    tree.hasChild "parameters" = false ∧ tree.hasChild "parameter" = false := by
  unfold withParameters? at none
  split at none
  next => cases none
  next listed =>
    split at none
    next => cases none
    next bare => exact ⟨by simpa using listed, by simpa using bare⟩

theorem child?_parenthesized {tree bare : Node} {left right : List Node}
    (none : tree.hasChild "parameters" = false) (same : tree.children = left ++ bare :: right) :
    (tree.withChildren (left ++ parenthesized bare :: right)).child? "parameters" =
      some (parenthesized bare) := by
  rw [Tree.hasChild_eq_false_iff, Tree.child?_eq_none_iff, same] at none
  exact (Tree.child?_eq_some_iff _ _ _).mpr
    ⟨left, right, rfl, fun child member => none child (by simp [member]), by
      simp [Children.inSlot, parenthesized, Tree.branch, Tree.slot]⟩

theorem child?_started {tree started : Node}
    (start : withParameters? tree = some started) :
    ∃ parameters, started.child? "parameters" = some parameters := by
  rcases withParameters?_cases start with
    ⟨present, rfl⟩ | ⟨none, bare, left, right, _, same, rfl⟩
  · exact Tree.child?_of_hasChild present
  · exact ⟨_, child?_parenthesized none same⟩

def listed (tree parameters : Node) (children : List Node) : Node :=
  tree.withChildren
    (Children.replace "parameters" (parameters.withChildren children) tree.children)

inductive Resulted (tree : Node) : Node → Prop where
  | kept (present : tree.hasChild "return_type" = true) : Resulted tree tree
  | barred (name : Node) (barred : resultless? tree = some name) : Resulted tree tree
  | added (absent : tree.hasChild "return_type" = false) (free : resultless? tree = none) :
      Resulted tree (tree.withChildren
        (Children.insertAfter "parameters" (TypeHint.unknown.toNode (some "return_type"))
          tree.children))

theorem resulted_annotateResult (tree parameters : Node) (session : Session) :
    Resulted tree (annotateResult tree parameters session).1 := by
  unfold annotateResult
  cases present : tree.hasChild "return_type" with
  | true => simpa using Resulted.kept present
  | false =>
      cases barred : resultless? tree with
      | some name => simpa using Resulted.barred name barred
      | none => simpa using Resulted.added present barred

theorem label_resulted {bound result : Node} (results : Resulted bound result) :
    result.label = bound.label := by
  cases results <;> rfl

theorem listed_split {tree parameters : Node} (list : tree.child? "parameters" = some parameters)
    (children : List Node) :
    ∃ left right, tree.children = left ++ parameters :: right ∧
      (∀ child ∈ left, Children.inSlot "parameters" child = false) ∧
      listed tree parameters children =
        tree.withChildren (left ++ parameters.withChildren children :: right) := by
  obtain ⟨left, right, same, before, inside⟩ := (Tree.child?_eq_some_iff _ _ _).mp list
  refine ⟨left, right, same, before, ?_⟩
  rw [listed, Children.replace, same, Children.modify_split _ before inside]

theorem withBindings?_cases {bindings : List Node} {tree bound : Node}
    (binds : withBindings? bindings tree = some bound) :
    (bindings = [] ∧ bound = tree) ∨
      (bindings ≠ [] ∧ ∃ body block left right, tree.child? "body" = some body ∧
        tree.children = left ++ body :: right ∧
        (∀ child ∈ left, Children.inSlot "body" child = false) ∧
        Bindings.prepend? (Bindings.asBlock body) bindings = some block ∧
        bound = tree.withChildren (left ++ block :: right)) := by
  cases bindings with
  | nil => exact .inl ⟨rfl, by simpa [withBindings?] using binds.symm⟩
  | cons binding rest =>
      refine .inr ⟨by simp, ?_⟩
      cases present : tree.child? "body" with
      | none => simp [withBindings?, present] at binds
      | some body =>
          simp only [withBindings?, present, Option.map_eq_some_iff] at binds
          obtain ⟨block, prepended, rfl⟩ := binds
          obtain ⟨left, right, same, before, inside⟩ := (Tree.child?_eq_some_iff _ _ _).mp present
          refine ⟨body, block, left, right, rfl, same, before, prepended, ?_⟩
          rw [Children.replace, same, Children.modify_split _ before inside]

theorem slot_asBlock {body : Node} (inside : body.slot = some "body") :
    (Bindings.asBlock body).slot = some "body" := by
  unfold Bindings.asBlock
  split
  · exact inside
  · rfl

theorem kind_asBlock (body : Node) : (Bindings.asBlock body).kind = Bindings.blockKind := by
  unfold Bindings.asBlock
  split
  next block => simpa using block
  next => rfl

theorem slot_prepended {body block : Node} {statements : List Node}
    (inside : body.slot = some "body")
    (prepended : Bindings.prepend? (Bindings.asBlock body) statements = some block) :
    block.slot = some "body" := by
  obtain ⟨left, brace, rest, _, _, _, rfl⟩ := Bindings.prepend?_cases prepended
  exact slot_asBlock inside

theorem child?_started_other {tree started : Node} (start : withParameters? tree = some started)
    {slot : String} (listless : slot ≠ "parameters") (bareless : slot ≠ "parameter") :
    started.child? slot = tree.child? slot := by
  rcases withParameters?_cases start with ⟨_, rfl⟩ | ⟨_, bare, left, right, present, same, rfl⟩
  · rfl
  · obtain ⟨label, children⟩ := tree
    rw [Tree.children_node] at same
    subst same
    refine Tree.child?_replaced label ?_ ?_
    · simpa [Tree.slot_of_child? present] using Ne.symm bareless
    · simpa [parenthesized, Tree.branch, Tree.slot] using Ne.symm listless

theorem child?_listed {started list : Node} (present : started.child? "parameters" = some list)
    (children : List Node) {slot : String} (other : slot ≠ "parameters") :
    (listed started list children).child? slot = started.child? slot := by
  obtain ⟨left, right, split, _, equal⟩ := listed_split present children
  obtain ⟨label, all⟩ := started
  rw [Tree.children_node] at split
  subst split
  have absent : list.slot ≠ some slot := by
    simpa [Tree.slot_of_child? present] using Ne.symm other
  rw [equal]
  exact Tree.child?_replaced label absent absent

theorem child?_list {started list : Node} (present : started.child? "parameters" = some list)
    (children : List Node) :
    (listed started list children).child? "parameters" = some (list.withChildren children) := by
  obtain ⟨left, right, split, before, equal⟩ := listed_split present children
  rw [equal]
  refine (Tree.child?_eq_some_iff _ _ _).mpr ⟨left, right, rfl, before, ?_⟩
  rw [Children.inSlot_iff, Tree.slot_withChildren]
  exact Tree.slot_of_child? present

theorem child?_bound {bindings : List Node} {tree bound : Node}
    (binds : withBindings? bindings tree = some bound) {slot : String} (other : slot ≠ "body") :
    bound.child? slot = tree.child? slot := by
  rcases withBindings?_cases binds with
    ⟨_, rfl⟩ | ⟨_, body, block, left, right, present, same, _, prepended, rfl⟩
  · rfl
  · obtain ⟨label, children⟩ := tree
    rw [Tree.children_node] at same
    subst same
    have inside := Tree.slot_of_child? present
    refine Tree.child?_replaced label ?_ ?_
    · simpa [inside] using Ne.symm other
    · simpa [slot_prepended inside prepended] using Ne.symm other

theorem hasChild_bound {bindings : List Node} {tree bound : Node}
    (binds : withBindings? bindings tree = some bound) :
    bound.hasChild "body" = tree.hasChild "body" := by
  rcases withBindings?_cases binds with
    ⟨_, rfl⟩ | ⟨_, body, block, left, right, present, _, _, prepended, rfl⟩
  · rfl
  · have inside := slot_prepended (Tree.slot_of_child? present) prepended
    rw [Tree.hasChild_of_child? present, Tree.hasChild_iff]
    exact ⟨block, by simp, inside⟩

theorem child?_resulted {bound result : Node} (results : Resulted bound result) {slot : String}
    (other : slot ≠ "return_type") : result.child? slot = bound.child? slot := by
  cases results with
  | kept => rfl
  | barred => rfl
  | added =>
      refine Tree.child?_insertAfter bound ?_
      simpa [TypeHint.toNode, Tree.branch, Tree.slot] using Ne.symm other

theorem hasChild_resulted {bound result list : Node} (results : Resulted bound result)
    (present : bound.child? "parameters" = some list) :
    result.hasChild "return_type" = true ∨
      result = bound ∧ ∃ name, resultless? bound = some name := by
  cases results with
  | kept present => exact .inl present
  | barred name barred => exact .inr ⟨rfl, name, barred⟩
  | added =>
      refine .inl ((Tree.hasChild_iff _ _).mpr ⟨_, Tree.self_mem_insertAfter _ present, rfl⟩)

section Signed

variable {tree started list bound result : Node} {children bindings : List Node}

theorem signed_list (present : started.child? "parameters" = some list)
    (binds : withBindings? bindings (listed started list children) = some bound)
    (results : Resulted bound result) :
    result.child? "parameters" = some (list.withChildren children) := by
  rw [child?_resulted results (by decide), child?_bound binds (by decide), child?_list present]

theorem signed_body (present : started.child? "parameters" = some list)
    (binds : withBindings? bindings (listed started list children) = some bound)
    (results : Resulted bound result) : result.hasChild "body" = started.hasChild "body" := by
  rw [Tree.hasChild, child?_resulted results (by decide), ← Tree.hasChild, hasChild_bound binds,
    Tree.hasChild, child?_listed present children (by decide), Tree.hasChild]

theorem signed_name (start : withParameters? tree = some started)
    (present : started.child? "parameters" = some list)
    (binds : withBindings? bindings (listed started list children) = some bound) :
    bound.child? "name" = tree.child? "name" := by
  rw [child?_bound binds (by decide), child?_listed present children (by decide),
    child?_started_other start (by decide) (by decide)]

theorem mem_signed (start : withParameters? tree = some started)
    (present : started.child? "parameters" = some list)
    (binds : withBindings? bindings (listed started list children) = some bound)
    (results : Resulted bound result) {child : Node} (member : child ∈ result.children) :
    child ∈ started.children ∨ child = list.withChildren children ∨
      (bindings ≠ [] ∧ ∃ body, tree.child? "body" = some body ∧
        Bindings.prepend? (Bindings.asBlock body) bindings = some child) ∨
      child = TypeHint.unknown.toNode (some "return_type") := by
  have below : ∀ child ∈ (listed started list children).children,
      child ∈ started.children ∨ child = list.withChildren children := by
    intro child member
    obtain ⟨left, right, split, _, equal⟩ := listed_split present children
    rw [equal] at member
    rcases (by simpa using member : child ∈ left ∨ child = list.withChildren children ∨
      child ∈ right) with early | rfl | late
    · exact .inl (by simp [split, early])
    · exact .inr rfl
    · exact .inl (by simp [split, late])
  have inBound : child ∈ bound.children ∨ child = TypeHint.unknown.toNode (some "return_type") := by
    cases results with
    | kept | barred => exact .inl member
    | added => exact (Children.mem_insertAfter member).symm
  rcases inBound with inside | rfl
  · rcases withBindings?_cases binds with
      ⟨_, rfl⟩ | ⟨nonempty, body, block, left, right, shown, split, _, prepended, rfl⟩
    · exact (below child inside).imp_right .inl
    · rcases (by simpa using inside : child ∈ left ∨ child = block ∨ child ∈ right)
        with early | rfl | late
      · exact (below child (by simp [split, early])).imp_right .inl
      · rw [child?_listed present children (by decide),
          child?_started_other start (by decide) (by decide)] at shown
        exact .inr (.inr (.inl ⟨nonempty, body, shown, prepended⟩))
      · exact (below child (by simp [split, late])).imp_right .inl
  · exact .inr (.inr (.inr rfl))

end Signed

end Functions

end ScriptTyping
