import ScriptTyping.Proofs.Node.Source
import ScriptTyping.Proofs.Rule.Outcome

set_option autoImplicit false

namespace ScriptTyping

open ScriptTyping.Tree

namespace Tree

-- A node of a tree below the labels of its ancestors, the parent's first.
inductive Occurs (whole : Node) : List Label → Node → Prop where
  | root : Occurs whole [] whole
  | child {above : List Label} {parent child : Node} (upper : Occurs whole above parent)
      (member : child ∈ parent.children) : Occurs whole (parent.label :: above) child

end Tree

namespace Functions

-- A method that admits no result type: a setter, or one with the name of a constructor.
def Resultless (named : Node → Prop) (method : Node) : Prop :=
  method.kind = "method_definition" ∧ ∃ name, method.child? "name" = some name ∧
    (named name ∨ ∃ mark ∈ method.children.takeWhile fun child => !Children.inSlot "name" child,
      mark.isLeaf = true ∧ mark.kind = "set")

end Functions

namespace Rule

structure Settled (named : Node → Prop) (before part : Node) : Prop where
  parameters : part.isLeaf = false → part.kind ∈ Functions.kinds →
    ∀ list, part.child? "parameters" = some list → ∀ parameter ∈ list.children,
      parameter.kind ∈ Functions.parameterKinds → ∀ pattern,
      parameter.child? "pattern" = some pattern →
      parameter.hasChild "type" = true ∧ (pattern.kind ∈ Functions.structuralKinds →
        part.hasChild "body" = false ∨ ∃ old ∈ before.subtrees,
          old.label.origin = parameter.label.origin ∧ old.hasChild "type" = true)
  listed : part.kind ∈ Functions.kinds → part.hasChild "parameter" = true →
    part.hasChild "parameters" = true
  result : part.isLeaf = false → part.kind ∈ Functions.kinds → part.hasChild "parameters" = true →
    part.hasChild "return_type" = true ∨ ∃ old ∈ before.subtrees,
      old.label.origin = part.label.origin ∧ Functions.Resultless named old
  header : part.kind = "for_in_statement" → LoopHeaders.declares part = true →
    ∀ child ∈ LoopHeaders.header part.children, child.kind ≠ "type_annotation" ∧
      (LoopHeaders.isDeclaration child = true → ∀ declarator ∈ child.children,
        declarator.kind = "variable_declarator" → declarator.hasChild "type" = true →
        ∃ old ∈ before.subtrees, old.label.origin = declarator.label.origin ∧
          old.kind = "variable_declarator" ∧ 2 ≤ old.children.countP (Children.inSlot "type"))

structure Complete (named : Node → Prop) (before : Node) (above : List Label) (part : Node) : Prop
    extends Settled named before part where
  declarator : part.kind = "variable_declarator" → part.hasChild "name" = true →
    part.hasChild "type" = true ∨ ∃ declaration loop rest, above = declaration :: loop :: rest ∧
      loop.kind = "for_in_statement" ∧ declaration.slot ≠ some "body"

-- The name prints `constructor`, as it was read or with the lead of a moved node.
def NamesConstructor (name : Node) : Prop :=
  ∃ moved, SameButLead name moved ∧ moved.sourceText = "constructor"

variable {whole tree handled final part : Node} {parent : Label} {above : List Label}

theorem inLoopHeader_cases (header : Declarations.inLoopHeader (above.take 2) = true) :
    ∃ declaration loop rest, above = declaration :: loop :: rest ∧
      loop.kind = "for_in_statement" ∧ declaration.slot ≠ some "body" := by
  match above with
  | [] => cases header
  | [_] => cases header
  | declaration :: loop :: rest =>
      simp only [List.take_succ_cons, List.take_zero, Declarations.inLoopHeader, Bool.and_eq_true,
        beq_iff_eq, bne_iff_ne] at header
      exact ⟨declaration, loop, rest, rfl, header.1, header.2⟩

theorem follows_of_occurs (regular : whole.Regular)
    (run : Follows whole whole.label [] whole final) (occurs : Occurs final above part) :
    (part.isLeaf = true ∧ part.children = []) ∨
      ∃ parent tree, Follows whole parent (above.take 2) tree part := by
  -- A node of the converted tree that the walk has come to, or a token below a quoted source.
  induction occurs with
  | root => exact .inr ⟨_, _, run⟩
  | @child above parent child upper member ih =>
      rcases ih with ⟨_, empty⟩ | ⟨grand, tree, follows⟩
      · rw [empty] at member
        cases member
      · rcases follows.cases regular with ⟨leaf, rfl⟩ | ⟨inner, handled, finals, effect, rfl, pairs⟩
        · rcases follows.known.1.childless leaf with empty | ⟨_, each⟩
          · rw [empty] at member
            cases member
          · exact .inl (each child member)
        · obtain ⟨middle, _, below⟩ := pairs.exists_of_mem_right member
          refine .inr ⟨handled.label, middle, ?_⟩
          simpa [List.take_take] using below

theorem setter_replaced {left right : List Node} {old new mark : Node}
    (slots : Children.inSlot "name" new = Children.inSlot "name" old)
    (marks : new.isLeaf = true → new.kind = "set" → old.isLeaf = true ∧ old.kind = "set")
    (member : mark ∈ (left ++ new :: right).takeWhile fun child => !Children.inSlot "name" child)
    (setter : mark.isLeaf = true ∧ mark.kind = "set") :
    ∃ mark ∈ (left ++ old :: right).takeWhile fun child => !Children.inSlot "name" child,
      mark.isLeaf = true ∧ mark.kind = "set" := by
  induction left with
  | nil =>
      rw [List.nil_append, List.takeWhile_cons] at member ⊢
      rw [slots] at member
      split at member
      next outside =>
        rw [if_pos outside]
        rcases List.mem_cons.mp member with rfl | below
        · exact ⟨old, by simp, marks setter.1 setter.2⟩
        · exact ⟨mark, by simp [below], setter⟩
      next => cases member
  | cons head rest ih =>
      rw [List.cons_append, List.takeWhile_cons] at member ⊢
      split at member
      next outside =>
        rw [if_pos outside]
        rcases List.mem_cons.mp member with rfl | below
        · exact ⟨mark, by simp, setter⟩
        · obtain ⟨found, present, same⟩ := ih below
          exact ⟨found, by simp [present], same⟩
      next => cases member

theorem setter_started {started list bound mark : Node} {children bindings : List Node}
    (start : Functions.withParameters? tree = some started)
    (present : started.child? "parameters" = some list)
    (binds : Functions.withBindings? bindings (Functions.listed started list children) = some bound)
    (member : mark ∈ bound.children.takeWhile fun child => !Children.inSlot "name" child)
    (setter : mark.isLeaf = true ∧ mark.kind = "set") :
    ∃ mark ∈ tree.children.takeWhile fun child => !Children.inSlot "name" child,
      mark.isLeaf = true ∧ mark.kind = "set" := by
  have listed : ∃ mark ∈ (Functions.listed started list children).children.takeWhile
      fun child => !Children.inSlot "name" child, mark.isLeaf = true ∧ mark.kind = "set" := by
    rcases Functions.withBindings?_cases binds with
      ⟨_, rfl⟩ | ⟨_, body, block, left, right, shown, split, _, prepended, rfl⟩
    · exact ⟨mark, member, setter⟩
    · have place := slot_of_child? shown
      have place' := Functions.slot_prepended place prepended
      rw [split]
      refine setter_replaced ?_ (fun _ kind => ?_) member setter
      · simp [Children.inSlot, place, place']
      · obtain ⟨_, _, _, _, _, _, rfl⟩ := Bindings.prepend?_cases prepended
        rw [kind_withChildren, Functions.kind_asBlock] at kind
        exact absurd kind (by decide)
  have begun : ∃ mark ∈ started.children.takeWhile fun child => !Children.inSlot "name" child,
      mark.isLeaf = true ∧ mark.kind = "set" := by
    obtain ⟨mark, member, setter⟩ := listed
    obtain ⟨left, right, split, _, equal⟩ := Functions.listed_split present children
    rw [equal] at member
    rw [split]
    refine setter_replaced ?_ (fun leaf kind => ?_) member setter
    · rfl
    · exact ⟨leaf, kind⟩
  rcases Functions.withParameters?_cases start with ⟨_, rfl⟩ | ⟨_, bare, left, right, shown, split, rfl⟩
  · exact begun
  · obtain ⟨mark, member, setter⟩ := begun
    rw [split]
    refine setter_replaced ?_ (fun leaf => ?_) member setter
    · rw [Children.inSlot, Children.inSlot, slot_of_child? shown]
      rfl
    · cases leaf

theorem resultless?_cases {method name : Node} (barred : Functions.resultless? method = some name) :
    method.kind = "method_definition" ∧ method.child? "name" = some name ∧
      (name.sourceText = "constructor" ∨
        ∃ mark ∈ method.children.takeWhile fun child => !Children.inSlot "name" child,
          mark.isLeaf = true ∧ mark.kind = "set") := by
  unfold Functions.resultless? at barred
  split at barred
  next kind =>
    obtain ⟨present, condition⟩ := Option.filter_eq_some_iff.mp barred
    refine ⟨by simpa using kind, present, ?_⟩
    simpa using condition
  next => cases barred

theorem sameButLead_of_constructor {found name : Node} (touched : Touched found name)
    (text : name.sourceText = "constructor") : SameButLead found name := by
  rcases touched with same | reworked
  · exact same
  · obtain ⟨token, member, colon⟩ := reworked.colon
    obtain ⟨front, back, split⟩ := sourceText_around_leaf name member colon
    have inside : ':' ∈ "constructor".toList := by
      rw [← text, split]
      simp
    exact absurd inside (by decide)

theorem resultless_inherits {old started list bound name : Node} {children bindings : List Node}
    (inherits : Inherits old tree) (start : Functions.withParameters? tree = some started)
    (present : started.child? "parameters" = some list)
    (binds : Functions.withBindings? bindings (Functions.listed started list children) = some bound)
    (barred : Functions.resultless? bound = some name) :
    Functions.Resultless NamesConstructor old := by
  obtain ⟨kind, shown, condition⟩ := resultless?_cases barred
  rw [Functions.signed_name start present binds] at shown
  obtain ⟨found, given, touched⟩ := inherits.child? shown
  refine ⟨?_, found, given, ?_⟩
  · rw [Tree.kind, Functions.label_bound start binds, inherits.label.kind] at kind
    exact kind
  · rcases condition with text | ⟨mark, member, setter⟩
    · exact .inl ⟨name, sameButLead_of_constructor touched text, text⟩
    · obtain ⟨mark, member, leaf, kind⟩ := setter_started start present binds member setter
      have pairs := @takeWhile_related _ "name" _ _ Touched.slot inherits.children
      obtain ⟨before, here, pair⟩ := pairs.exists_of_mem_right member
      exact .inr ⟨before, here, by rwa [← pair.isLeaf], by rwa [← pair.kind]⟩

theorem annotation_inherits {old started list parameter : Node} (inherits : Inherits old tree)
    (start : Functions.withParameters? tree = some started)
    (present : started.child? "parameters" = some list) (member : parameter ∈ list.children)
    (kind : parameter.kind ∈ Functions.parameterKinds)
    (typed : parameter.hasChild "type" = true) :
    ∃ found ∈ old.subtrees, found.label.origin = parameter.label.origin ∧
      found.hasChild "type" = true := by
  rcases Functions.withParameters?_cases start with ⟨_, rfl⟩ | ⟨unlisted, bare, left, right, _, split, rfl⟩
  · obtain ⟨before, given, touched⟩ := inherits.child? present
    obtain ⟨found, below, pair⟩ :=
      touched.parameter_of_mem member (by simpa [isParameter] using kind)
    refine ⟨found, ?_, pair.origin.symm, ?_⟩
    · exact mem_subtrees_of_child (mem_of_child? given) (child_mem_subtrees below)
    · rw [← hasChild_related SameButLead.slot pair.children, typed]
  · rw [Functions.child?_parenthesized unlisted split] at present
    cases present
    rw [Functions.parenthesized_parameter member kind] at typed
    cases typed

theorem header_inherits {old declaration declarator : Node} (inherits : Inherits old tree)
    (member : declaration ∈ LoopHeaders.header tree.children)
    (declares : LoopHeaders.isDeclaration declaration = true)
    (below : declarator ∈ declaration.children) :
    ∃ found ∈ old.subtrees, found.label.origin = declarator.label.origin ∧
      found.kind = declarator.kind ∧ found.children.countP (Children.inSlot "type") =
        declarator.children.countP (Children.inSlot "type") := by
  obtain ⟨before, given, touched⟩ :=
    inherits.children.exists_of_mem_right ((List.takeWhile_sublist _).subset member)
  have plain := touched.same (LoopHeaders.not_isParameter declares)
  obtain ⟨found, present, same⟩ := plain.children.exists_of_mem_right below
  refine ⟨found, mem_subtrees_of_child given (child_mem_subtrees present), same.origin.symm,
    same.kind.symm, ?_⟩
  have pairs := same.children
  generalize found.children = olds at pairs
  generalize declarator.children = news at pairs
  induction pairs with
  | nil => rfl
  | cons here later ih => simp [List.countP_cons, Children.inSlot, here.slot, ih]

theorem hasChild_of_childless (childless : part.children = [] ∨ part.kind = "string")
    (other : part.kind ≠ "string") (slot : String) : part.hasChild slot = false := by
  simp [Tree.hasChild, Tree.child?, childless.resolve_right other]

theorem settled_of_leaf {named : Node → Prop} (leaf : part.isLeaf = true)
    (childless : part.children = [] ∨ part.kind = "string") : Settled named whole part := by
  constructor
  case parameters =>
    intro inner
    cases leaf.symm.trans inner
  case listed =>
    intro function bare
    have other : part.kind ≠ "string" := fun string => by
      rw [string] at function
      exact absurd function (by decide)
    rw [hasChild_of_childless childless other] at bare
    cases bare
  case result =>
    intro inner
    cases leaf.symm.trans inner
  case header =>
    intro loop _ child member
    rw [childless.resolve_right (by rw [loop]; decide)] at member
    cases member

theorem settled_of_follows (regular : whole.Regular)
    (follows : Follows whole parent above tree part) : Settled NamesConstructor whole part := by
  rcases follows.cases regular with ⟨leaf, rfl⟩ | ⟨inner, handled, finals, effect, rfl, pairs⟩
  · exact settled_of_leaf leaf ((follows.known.1.childless leaf).imp_right And.left)
  · have kind : (handled.withChildren finals).kind = tree.kind := follows.kind
    have origin : (handled.withChildren finals).label.origin = tree.label.origin :=
      congrArg Label.origin follows.label
    have inherited (site : tree.kind ∈ siteKinds) : ∃ old ∈ whole.subtrees, Inherits old tree :=
      follows.known.1.linked inner site
    constructor
    case parameters =>
      intro _ function list given parameter member parameterKind pattern shown
      rw [kind] at function
      have typed := parameters_typed regular function effect pairs given member parameterKind shown
      refine ⟨typed.1, fun structural => ?_⟩
      rcases typed.2 structural with bodiless | ⟨started, earlier, old, start, present, below, same⟩
      · exact .inl ((hasChild_final pairs "body").trans bodiless)
      · obtain ⟨source, within, inherits⟩ := inherited (site_of_function function)
        obtain ⟨found, lower, origin, annotated⟩ := annotation_inherits inherits start present below
          (by rwa [Tree.kind, ← same.label]) ((same.hasChild "type").symm.trans typed.1)
        exact .inr ⟨found, mem_subtrees_trans lower within,
          origin.trans (congrArg Label.origin same.label).symm, annotated⟩
    case listed =>
      intro function bare
      exact listed_final (kind ▸ function) effect pairs bare
    case result =>
      intro _ function listed
      rw [kind] at function
      rcases result_typed function effect pairs listed with
        typed | ⟨started, list, children, bindings, name, start, present, binds, barred⟩
      · exact .inl typed
      · obtain ⟨source, within, inherits⟩ := inherited (site_of_function function)
        refine .inr ⟨source, within, ?_, resultless_inherits inherits start present binds barred⟩
        rw [origin, inherits.label.origin]
    case header =>
      intro loop declares child member
      have loop' : tree.kind = Declarations.iterationKind := kind.symm.trans loop
      have bare := header_bare regular loop' effect pairs declares member
      refine ⟨bare.1, fun declaration declarator below isDeclarator typed => ?_⟩
      obtain ⟨before, header, declares', original, here, label, several⟩ :=
        bare.2 declaration declarator below (by simpa [LoopHeaders.isDeclarator] using isDeclarator)
          typed
      obtain ⟨source, within, inherits⟩ := inherited (site_of_iteration loop')
      obtain ⟨found, lower, origin, kind, same⟩ := header_inherits inherits header declares' here
      refine ⟨found, mem_subtrees_trans lower within, ?_, ?_, by rwa [same]⟩
      · rw [origin, label]
      · rw [kind, Tree.kind, label]
        exact isDeclarator

theorem declarator_of_follows (regular : whole.Regular)
    (follows : Follows whole parent above tree part) (kind : part.kind = "variable_declarator")
    (named : part.hasChild "name" = true) :
    part.hasChild "type" = true ∨ Declarations.inLoopHeader above = true := by
  rcases follows.cases regular with ⟨leaf, rfl⟩ | ⟨_, handled, finals, effect, rfl, pairs⟩
  · have childless := (follows.known.1.childless leaf).imp_right And.left
    rw [hasChild_of_childless childless (by rw [kind]; decide)] at named
    cases named
  · exact declarator_typed (follows.kind.symm.trans kind) effect pairs named

/-- Whatever a completed run leaves is annotated, except where the grammar admits no annotation. -/
theorem walk_completes_annotation (before : Node) (session : Session) (regular : before.Regular)
    (complete : (walk all before session).fault = none) :
    ∀ above part, Occurs (walk all before session).tree above part →
      Complete NamesConstructor before above part := by
  intro above part occurs
  have run := follows_of_walk regular complete
  rcases follows_of_occurs regular run occurs with ⟨leaf, childless⟩ | ⟨parent, tree, follows⟩
  · refine ⟨settled_of_leaf leaf (.inl childless), fun _ named => ?_⟩
    simp [Tree.hasChild, Tree.child?, childless] at named
  · refine ⟨settled_of_follows regular follows, fun kind named => ?_⟩
    exact (declarator_of_follows regular follows kind named).imp_right inLoopHeader_cases

def patternArrow : Node :=
  .numberedAs 0 <| .branch "arrow_function"
    [.numberedAs 1 <| .branch "object_pattern"
      [.numberedAs 2 <| .mark "\x7b" "",
       .numberedAs 3 <| .leaf "shorthand_property_identifier_pattern" "a" " " none,
       .numberedAs 4 <| .mark "\x7d" " "] (some "parameter"),
     .numberedAs 5 <| .mark "=>" " ",
     .numberedAs 6 <| .leaf "identifier" "a" " " (some "body")] none

theorem patternArrow_annotated :
    patternArrow.Regular ∧ (walk all patternArrow (.start .empty)).fault = none ∧
      ∀ above part, Occurs (walk all patternArrow (.start .empty)).tree above part →
        Complete NamesConstructor patternArrow above part := by
  have regular : patternArrow.Regular := ⟨by decide, by decide, by decide⟩
  have complete : (walk all patternArrow (.start .empty)).fault = none := by decide +kernel
  exact ⟨regular, complete, walk_completes_annotation _ _ regular complete⟩

-- An arrow function whose bare parameter is a method. The name has text before its only token, so
-- it prints `constructor` once that token has lost its lead.
def gappedName : Node :=
  .numberedAs 0 <| .branch "arrow_function"
    [.numberedAs 1 <| .branch "method_definition"
      [.numberedAs 2 <| .branch "property_identifier"
        [.node { kind := "gap", slot := none, token := none, lead := "", trail := "constr",
                 origin := some 3 } [],
         .numberedAs 4 <| .leaf "word" "uctor" " " none] (some "name"),
       .numberedAs 5 <| .branch "formal_parameters"
        [.numberedAs 6 <| .mark "(" "", .numberedAs 7 <| .mark ")" ""] (some "parameters")]
      (some "parameter")] none

def gappedMethod : Node :=
  .numberedAs 1 <| .branch "method_definition"
    [.numberedAs 2 <| .branch "property_identifier"
      [.node { kind := "gap", slot := none, token := none, lead := "", trail := "constr",
               origin := some 3 } [],
       .numberedAs 4 <| .leaf "word" "uctor" "" none] (some "name"),
     .numberedAs 5 <| .branch "formal_parameters"
      [.numberedAs 6 <| .mark "(" "", .numberedAs 7 <| .mark ")" ""] (some "parameters")]
    (some "pattern")

theorem walk_gappedName :
    (walk all gappedName (.start .empty)).tree =
      .numberedAs 0 (.branch "arrow_function"
        [.branch "formal_parameters"
          [.mark "(" " ",
           .branch "required_parameter"
            [gappedMethod, TypeHint.unknown.toNode (some "type")] none,
           .mark ")" ""] (some "parameters"),
         TypeHint.unknown.toNode (some "return_type")] none) := by
  decide +kernel

theorem occurs_gappedMethod :
    ∃ above, Occurs (walk all gappedName (.start .empty)).tree above gappedMethod := by
  rw [walk_gappedName]
  exact ⟨_, .child (.child (.child .root (.head _)) (.tail _ (.head _))) (.head _)⟩

theorem walk_leaves_gapped_method :
    ¬ ∀ before session, before.Regular → (walk all before session).fault = none →
      ∀ above part, Occurs (walk all before session).tree above part →
        Complete (fun name => name.sourceText = "constructor") before above part := by
  intro claimed
  have regular : gappedName.Regular := ⟨by decide, by decide, by decide⟩
  obtain ⟨above, occurs⟩ := occurs_gappedMethod
  have done := claimed gappedName (.start .empty) regular (by decide +kernel) above gappedMethod
    occurs
  have names : ∀ old ∈ gappedName.subtrees, old.label.origin = some 1 →
      (old.child? "name").map sourceText = some "onstr uctor" := by decide +kernel
  have marks : ∀ old ∈ gappedName.subtrees, old.label.origin = some 1 →
      (old.children.takeWhile fun child => !Children.inSlot "name" child) = [] := by decide +kernel
  rcases done.result rfl (by decide) (by decide) with typed | ⟨old, member, origin, method⟩
  · exact absurd typed (by decide)
  · obtain ⟨_, name, present, text | ⟨mark, early, _⟩⟩ := method
    · have read := names old member origin
      rw [present, Option.map_some, text] at read
      exact absurd read (by decide)
    · rw [marks old member origin] at early
      cases early

end Rule

end ScriptTyping
