import ScriptTyping.Proofs.Node.Source
import ScriptTyping.Proofs.Rule.Step
import ScriptTyping.Proofs.Rule.SyntheticNames
import ScriptTyping.Proofs.Rule.Totality

set_option autoImplicit false

namespace ScriptTyping

open ScriptTyping.Tree

namespace Functions

structure Unannotated (child pattern : Node) : Prop where
  kind : child.kind ∈ parameterKinds
  shown : child.child? "pattern" = some pattern
  free : child.hasChild "type" = false

def movable? (child : Node) : Option Node :=
  if parameterKinds.contains child.kind && !child.hasChild "type" then
    (child.child? "pattern").filter fun pattern => structuralKinds.contains pattern.kind
  else none

def movable (children : List Node) : List Node := children.filterMap movable?

def parameterHint : Node := TypeHint.unknown.toNode (some "type")

def standIn (name : String) (pattern : Node) : Node :=
  .leaf "identifier" name pattern.trivia (some "pattern")

inductive Retyped (child pattern replacement : Node) : Node → Prop where
  | plain {left right : List Node} (split : child.children = left ++ pattern :: right)
      (first : ∀ other ∈ left, other.slot ≠ some "pattern")
      (unmarked : ∀ next ∈ right.head?, next.kind ≠ "?") :
      Retyped child pattern replacement
        (child.withChildren (left ++ replacement :: parameterHint :: right))
  | optional {left right : List Node} {mark : Node}
      (split : child.children = left ++ pattern :: mark :: right)
      (first : ∀ other ∈ left, other.slot ≠ some "pattern") (marked : mark.kind = "?") :
      Retyped child pattern replacement
        (child.withChildren (left ++ replacement :: mark :: parameterHint :: right))

-- The children of a parameter list before and after, with the patterns that have moved and the
-- names that stand for them.
inductive Lowering : List Node → List Node → List Node → List String → Prop where
  | nil : Lowering [] [] [] []
  | other {child : Node} {rest after patterns : List Node} {names : List String}
      (settled : ∀ pattern, ¬ Unannotated child pattern) (later : Lowering rest after patterns names) :
      Lowering (child :: rest) (child :: after) patterns names
  | typed {child pattern changed : Node} {rest after patterns : List Node} {names : List String}
      (bare : Unannotated child pattern) (whole : pattern.kind ∉ structuralKinds)
      (retyped : Retyped child pattern pattern changed) (later : Lowering rest after patterns names) :
      Lowering (child :: rest) (changed :: after) patterns names
  | moved {child pattern changed : Node} {rest after patterns : List Node} {name : String}
      {names : List String} (bare : Unannotated child pattern)
      (structural : pattern.kind ∈ structuralKinds)
      (retyped : Retyped child pattern (standIn name pattern) changed)
      (later : Lowering rest after patterns names) :
      Lowering (child :: rest) (changed :: after) (pattern :: patterns) (name :: names)

theorem retyped_of_slot {child pattern replacement : Node}
    (shown : child.child? "pattern" = some pattern) (slot : replacement.slot = some "pattern") :
    ∃ left right, child.children = left ++ pattern :: right ∧
      (∀ other ∈ left, Children.inSlot "pattern" other = false) ∧
      Retyped child pattern replacement
        (child.withChildren (Children.insertAfterMarked "pattern" "?" parameterHint
          (left ++ replacement :: right))) := by
  obtain ⟨left, right, split, before, _⟩ := (child?_eq_some_iff _ _ _).mp shown
  have first : ∀ other ∈ left, other.slot ≠ some "pattern" := fun other member => by
    simpa [Children.inSlot] using before other member
  refine ⟨left, right, split, before, ?_⟩
  rw [Children.insertAfterMarked_split before ((Children.inSlot_iff _ _).mpr slot)]
  cases right with
  | nil => exact .plain split first (by simp)
  | cons next rest =>
      by_cases marked : next.kind = "?"
      · simp only [Children.insertBehind, marked, beq_self_eq_true, if_true]
        exact .optional split first marked
      · simp only [Children.insertBehind, beq_iff_eq, marked, if_false]
        exact .plain split first (by simpa using marked)

theorem retyped_annotateParameter {child pattern : Node}
    (shown : child.child? "pattern" = some pattern) :
    Retyped child pattern pattern (annotateParameter child) := by
  obtain ⟨left, right, split, _, retyped⟩ := retyped_of_slot shown (slot_of_child? shown)
  rw [annotateParameter, split]
  exact retyped

theorem retyped_renamed {child pattern : Node} (shown : child.child? "pattern" = some pattern)
    (name : String) :
    Retyped child pattern (standIn name pattern) (annotateParameter (renamed name child)) := by
  obtain ⟨left, right, split, before, retyped⟩ :=
    retyped_of_slot shown (show (standIn name pattern).slot = some "pattern" from rfl)
  have inside : Children.inSlot "pattern" pattern = true :=
    (Children.inSlot_iff _ _).mpr (slot_of_child? shown)
  rw [annotateParameter, renamed, split, Children.modify_split _ before inside, children_withChildren]
  exact retyped

theorem movable?_of_unannotated {child pattern : Node} (bare : Unannotated child pattern) :
    movable? child = if pattern.kind ∈ structuralKinds then some pattern else none := by
  have parameter : (parameterKinds.contains child.kind && !child.hasChild "type") = true := by
    simp [bare.kind, bare.free]
  rw [movable?, if_pos parameter, bare.shown, Option.filter_some]
  simp only [List.contains_iff_mem]

theorem movable?_of_settled {child : Node} (settled : ∀ pattern, ¬ Unannotated child pattern) :
    movable? child = none := by
  unfold movable?
  split
  next parameter =>
    simp only [Bool.and_eq_true, List.contains_iff_mem, Bool.not_eq_true'] at parameter
    cases shown : child.child? "pattern" with
    | none => rfl
    | some pattern => exact absurd ⟨parameter.1, shown, parameter.2⟩ (settled pattern)
  next => rfl

theorem mem_movable {children : List Node} {pattern : Node} (member : pattern ∈ movable children) :
    ∃ child ∈ children, pattern ∈ child.children := by
  obtain ⟨child, present, moves⟩ := List.mem_filterMap.mp member
  suffices shown : child.child? "pattern" = some pattern from
    ⟨child, present, mem_of_child? shown⟩
  unfold movable? at moves
  split at moves
  next => exact (Option.filter_eq_some_iff.mp moves).1
  next => cases moves

theorem lowers_annotateParameters (taken : List String) (children : List Node) (number : Nat)
    (session : Session) :
    Lowering children (annotateParameters taken true children number session).children
        (movable children) (FreshNames.drawFrom taken (movable children).length number) ∧
      (annotateParameters taken true children number session).bindings =
        List.zipWith Bindings.statement (movable children)
          (FreshNames.drawFrom taken (movable children).length number) := by
  induction children generalizing number session with
  | nil => exact ⟨.nil, rfl⟩
  | cons child rest ih =>
      have settle (settled : ∀ pattern, ¬ Unannotated child pattern) :
          movable (child :: rest) = movable rest :=
        List.filterMap_cons_none (movable?_of_settled settled)
      rw [annotateParameters]
      rcases changeOf_cases true child with
        ⟨change, free⟩ | ⟨kind, pattern, shown,
          ⟨change, typed⟩ | ⟨change, free, structural, _⟩ | ⟨change, free, whole⟩⟩
      · have settled : ∀ pattern, ¬ Unannotated child pattern := by
          rintro pattern ⟨kind, shown, _⟩
          rcases free with other | absent
          · exact other kind
          · simp [shown] at absent
        rw [change, settle settled]
        exact ⟨.other settled (ih number session).1, (ih number session).2⟩
      · have settled : ∀ pattern, ¬ Unannotated child pattern := by
          rintro pattern ⟨_, _, free⟩
          simp [typed] at free
        rw [change, settle settled]
        exact ⟨.other settled (ih number _).1, (ih number _).2⟩
      · have bare : Unannotated child pattern := ⟨kind, shown, free⟩
        have moves : movable (child :: rest) = pattern :: movable rest :=
          List.filterMap_cons_some (by rw [movable?_of_unannotated bare, if_pos structural])
        obtain ⟨later, bindings⟩ := ih (FreshNames.next taken number + 1) _
        rw [change, moves]
        exact ⟨.moved bare structural (retyped_renamed shown _) later, congrArg _ bindings⟩
      · have bare : Unannotated child pattern := ⟨kind, shown, free⟩
        have plain : pattern.kind ∉ structuralKinds := fun structural => by
          simpa using whole structural
        have stays : movable (child :: rest) = movable rest :=
          List.filterMap_cons_none (by rw [movable?_of_unannotated bare, if_neg plain])
        rw [change, stays]
        exact ⟨.typed bare plain (retyped_annotateParameter shown) (ih number _).1, (ih number _).2⟩

structure Rebinds (indent : String) (pattern : Node) (name : String) (statement : Node) : Prop where
  shape : statement = .branch "lexical_declaration"
    [.leaf "const" "const" indent (some "kind"),
     .branch "variable_declarator"
       [(pattern.withSlot (some "name")).withTrivia " ", .mark "=" " ",
        .leaf "identifier" name " " (some "value")] none,
     .mark ";" ""] none
  text : statement.text = indent ++ "const " ++ pattern.sourceText ++ " = " ++ name ++ ";"

end Functions

namespace Tree

theorem trailless_withSlot {tree : Node} (trailless : tree.Trailless) (slot : Option String) :
    (tree.withSlot slot).Trailless := by
  intro part below
  rcases (mem_subtrees_iff _ _).mp below with rfl | ⟨child, member, lower⟩
  · exact trailless tree (self_mem_subtrees tree)
  · exact trailless part (mem_subtrees_of_child member lower)

theorem text_withSlot (tree : Node) (slot : Option String) : (tree.withSlot slot).text = tree.text := by
  obtain ⟨label, children⟩ := tree
  cases content : label.token with
  | none =>
      rw [text_branch label children content]
      exact text_branch { label with slot } children content
  | some token =>
      rw [text_leaf label children token content]
      exact text_leaf { label with slot } children token content

theorem trivia_withSlot (tree : Node) (slot : Option String) :
    (tree.withSlot slot).trivia = tree.trivia := by
  rw [trivia, trivia, firstLeaf?_eq, firstLeaf?_eq, leaves_withSlot]
  split
  next leaf =>
    obtain ⟨label, children⟩ := tree
    rw [leaves_leaf label children leaf]
    rfl
  next => rfl

theorem sourceText_withSlot (tree : Node) (slot : Option String) :
    (tree.withSlot slot).sourceText = tree.sourceText := by
  rw [sourceText, sourceText, text_withSlot, trivia_withSlot]

theorem Trailless.text_withTrivia_eq {tree : Node} (trailless : tree.Trailless)
    (present : tree.leaves ≠ []) (lead : String) :
    (tree.withTrivia lead).text = lead ++ tree.sourceText := by
  obtain ⟨rest, own, changed⟩ := trailless.text_withTrivia present
  have source : tree.sourceText = rest := by
    rw [sourceText, own, String.toList_append, ← String.length_toList, List.drop_left,
      String.ofList_toList]
  rw [changed, source]

end Tree

namespace Functions

theorem rebinds_statement {pattern : Node} (trailless : pattern.Trailless)
    (present : pattern.leaves ≠ []) (indent name : String) :
    Rebinds indent pattern name ((Bindings.statement pattern name).withTrivia indent) := by
  have inside : (pattern.withSlot (some "name")).leaves ≠ [] := by
    rw [leaves_withSlot]
    split
    · simp
    · exact present
  have moved := (trailless_withSlot trailless (some "name")).text_withTrivia_eq inside " "
  rw [sourceText_withSlot] at moved
  refine ⟨Rule.withTrivia_statement indent pattern name, ?_⟩
  have keyword (rest : String) : "const" ++ (" " ++ rest) = "const " ++ rest :=
    (String.append_assoc ..).symm
  have sign (rest : String) : " =" ++ (" " ++ rest) = " = " ++ rest :=
    (String.append_assoc ..).symm
  rw [Rule.withTrivia_statement]
  simp [branch, mark, leaf, text_branch, text_leaf, moved, String.append_assoc, keyword, sign]

theorem rebinds_statements {patterns : List Node} (trailless : ∀ pattern ∈ patterns, pattern.Trailless)
    (printed : ∀ pattern ∈ patterns, pattern.leaves ≠ []) (indent : String) (names : List String) :
    List.Forall₂ (fun (binding : Node × String) statement =>
        Rebinds indent binding.1 binding.2 statement) (patterns.zip names)
      ((List.zipWith Bindings.statement patterns names).map (Tree.withTrivia indent)) := by
  induction patterns generalizing names with
  | nil => exact .nil
  | cons pattern rest ih =>
      cases names with
      | nil => exact .nil
      | cons name names =>
          exact .cons (rebinds_statement (trailless pattern (by simp)) (printed pattern (by simp)) _ _)
            (ih (fun other member => trailless other (by simp [member]))
              (fun other member => printed other (by simp [member])) names)

-- The statements stand behind the first opening brace, followed by what stood there. A body that is
-- an expression has become a block that returns it.
inductive Extends (statements : List Node) (body : Node) : String → Node → Prop where
  | block {left rest : List Node} {brace : Node} (kind : body.kind = Bindings.blockKind)
      (split : body.children = left ++ brace :: rest) (opening : brace.kind = "\x7b")
      (first : ∀ child ∈ left, child.kind ≠ "\x7b") :
      Extends statements body (Bindings.indentBefore rest)
        (body.withChildren (left ++ brace :: (statements ++ Bindings.setOff rest)))
  | expression (kind : body.kind ≠ Bindings.blockKind) :
      Extends statements body " "
        (.branch Bindings.blockKind
          (.mark "\x7b" body.trivia :: (statements ++
            [.branch "return_statement"
              [.mark "return" " ", (body.withSlot none).withTrivia " ", .mark ";" ""] none,
             .mark "\x7d" " "])) (some "body"))

theorem extends_of_prepend {body block : Node} {bindings : List Node}
    (prepended : Bindings.prepend? (Bindings.asBlock body) bindings = some block) :
    ∃ indent, Extends (bindings.map (Tree.withTrivia indent)) body indent block := by
  by_cases kind : body.kind = Bindings.blockKind
  · rw [Bindings.asBlock, if_pos (by simpa using kind)] at prepended
    obtain ⟨left, brace, rest, split, opening, first, rfl⟩ := Bindings.prepend?_cases prepended
    exact ⟨_, .block kind split opening first⟩
  · rw [Bindings.asBlock, if_neg (by simpa using kind)] at prepended
    cases prepended
    refine ⟨" ", ?_⟩
    have lead : (branch "return_statement" [mark "return" " ", (body.withSlot none).withTrivia " ",
        mark ";" ""] none).trivia = " " := by
      simp [trivia, firstLeaf?_eq]
      rfl
    have indent : Bindings.indentBefore [branch "return_statement" [mark "return" " ",
        (body.withSlot none).withTrivia " ", mark ";" ""] none, mark "\x7d" " "] = " " := by
      rw [Bindings.indentBefore, lead]
      rfl
    rw [indent]
    exact .expression kind

theorem child?_replace {tree found replacement : Node} {slot : String}
    (shown : tree.child? slot = some found) (same : replacement.slot = some slot) :
    (tree.withChildren (Children.replace slot replacement tree.children)).child? slot =
      some replacement := by
  obtain ⟨left, right, split, before, inside⟩ := (child?_eq_some_iff _ _ _).mp shown
  rw [split, Children.replace, Children.modify_split _ before inside]
  exact (child?_eq_some_iff _ _ _).mpr ⟨left, right, rfl, before, (Children.inSlot_iff _ _).mpr same⟩

theorem withBindings?_of_prepend {bindings : List Node} {tree body block : Node}
    (nonempty : bindings ≠ []) (shown : tree.child? "body" = some body)
    (prepended : Bindings.prepend? (Bindings.asBlock body) bindings = some block) :
    withBindings? bindings tree =
      some (tree.withChildren (Children.replace "body" block tree.children)) := by
  cases bindings with
  | nil => exact absurd rfl nonempty
  | cons binding rest => simp [withBindings?, shown, prepended]

theorem handle_of_bound (above : List Label) {tree parameters bound : Node} (session : Session)
    (list : tree.child? "parameters" = some parameters) {signature : Signature}
    (signed : signature = annotateParameters (takenNames tree parameters) (tree.hasChild "body")
      parameters.children 0 session)
    (binds : withBindings? signature.bindings (listed tree parameters signature.children) =
      some bound) :
    ∃ after result, handle above tree session = ⟨result, after, none⟩ ∧ Resulted bound result := by
  have started : withParameters? tree = some tree := if_pos (hasChild_of_child? list)
  rw [listed] at binds
  let annotated := annotateResult bound (parameters.withChildren signature.children) signature.session
  refine ⟨annotated.2, annotated.1, ?_, resulted_annotateResult _ _ _⟩
  simp only [handle, started, list, ← signed, binds, annotated]

/-- A function with patterns to move is annotated without a fault. Its parameters are lowered, its body begins
with a statement for each pattern, and the rest of it stays, up to the annotation of the result. -/
theorem handle_lowers (above : List Label) {tree parameters body : Node} (session : Session)
    (list : tree.child? "parameters" = some parameters) (shown : tree.child? "body" = some body)
    (opened : body.kind = Bindings.blockKind → ∃ brace ∈ body.children, brace.kind = "\x7b")
    (nonempty : movable parameters.children ≠ [])
    (printed : ∀ pattern ∈ movable parameters.children, pattern.leaves ≠ [])
    (trailless : ∀ child ∈ tree.children, child.Trailless) :
    ∃ children names indent statements block,
      Lowering parameters.children children (movable parameters.children) names ∧
      names = FreshNames.draw (takenNames tree parameters) (movable parameters.children).length ∧
      names.Nodup ∧ (∀ name ∈ names, name ∉ takenNames tree parameters) ∧
      List.Forall₂ (fun (binding : Node × String) statement =>
        Rebinds indent binding.1 binding.2 statement)
        ((movable parameters.children).zip names) statements ∧
      Extends statements body indent block ∧
      ∃ result after, handle above tree session = ⟨result, after, none⟩ ∧
        Resulted (tree.withChildren (Children.replace "body" block
          (Children.replace "parameters" (parameters.withChildren children) tree.children))) result ∧
        result.child? "parameters" = some (parameters.withChildren children) ∧
        result.child? "body" = some block := by
  have trailless' : ∀ pattern ∈ movable parameters.children, pattern.Trailless := by
    intro pattern member
    obtain ⟨child, present, inside⟩ := mem_movable member
    exact ((trailless _ (mem_of_child? list)).child present).child inside
  have hasBody := hasChild_of_child? shown
  obtain ⟨signature, signed⟩ : ∃ signature, signature = annotateParameters (takenNames tree parameters)
      (tree.hasChild "body") parameters.children 0 session := ⟨_, rfl⟩
  obtain ⟨lowering, bindings⟩ :=
    lowers_annotateParameters (takenNames tree parameters) parameters.children 0 session
  rw [← hasBody, ← signed] at lowering bindings
  have bound : signature.bindings ≠ [] := by
    obtain ⟨pattern, rest, patterns⟩ := List.exists_cons_of_ne_nil nonempty
    rw [bindings, patterns]
    exact List.cons_ne_nil _ _
  obtain ⟨block, prepended⟩ := Bindings.prepend?_asBlock signature.bindings opened
  obtain ⟨indent, extended⟩ := extends_of_prepend prepended
  have body' : (listed tree parameters signature.children).child? "body" = some body := by
    rw [child?_listed list _ (by decide), shown]
  have binds := withBindings?_of_prepend bound body' prepended
  obtain ⟨after, result, handled, results⟩ := handle_of_bound above session list signed binds
  rw [bindings] at extended
  refine ⟨signature.children, _, indent, _, block, lowering, rfl, FreshNames.nodup_drawFrom _ _ _,
    fun name member => (FreshNames.mem_drawFrom member).1,
    rebinds_statements trailless' printed indent _, extended, result, after, handled, results,
    signed_list list binds results, ?_⟩
  rw [child?_resulted results (by decide)]
  exact child?_replace body' (slot_prepended (slot_of_child? shown) prepended)

def unpackingList : Node :=
  .branch "formal_parameters"
    [.mark "(" "",
     .branch "required_parameter"
      [.branch "object_pattern"
        [.mark "\x7b" "", .leaf "shorthand_property_identifier_pattern" "a" "" none,
         .mark "\x7d" ""] (some "pattern"),
       .mark "=" " ", .leaf "identifier" "b" " " (some "value")] none,
     .mark "," "",
     .branch "required_parameter" [.leaf "identifier" "params" " " (some "pattern")] none,
     .mark "," "",
     .branch "optional_parameter"
      [.branch "array_pattern"
        [.mark "[" " ", .leaf "identifier" "c" "" none, .mark "]" ""] (some "pattern"),
       .mark "?" ""] none,
     .mark ")" ""] (some "parameters")

def unpacking : Node :=
  .branch "function_declaration"
    [.mark "function" "", .leaf "identifier" "f" " " (some "name"), unpackingList,
     .branch "statement_block"
      [.mark "\x7b" " ",
       .branch "expression_statement" [.leaf "identifier" "g" "\n  " none, .mark ";" ""] none,
       .mark "\x7d" "\n"] (some "body")] none

theorem unpacking_lowered :
    unpacking.child? "parameters" = some unpackingList ∧
      (∃ children, Lowering unpackingList.children children (movable unpackingList.children)
        ["params1", "params2"]) ∧
      (handle [] unpacking (.start .empty)).fault = none ∧
      (handle [] unpacking (.start .empty)).tree.text =
        "function f(params1: any = b, params: any, params2?: any): any \x7b\n  " ++
          "const \x7ba\x7d = params1;\n  const [c] = params2;\n  g;\n\x7d" := by
  have printed : ∀ pattern ∈ movable unpackingList.children, pattern.leaves ≠ [] := by
    decide +kernel
  have trailless : ∀ child ∈ unpacking.children, child.Trailless := by
    unfold Trailless
    decide +kernel
  have fresh : FreshNames.draw (takenNames unpacking unpackingList)
      (movable unpackingList.children).length = ["params1", "params2"] := by
    decide +kernel
  obtain ⟨children, names, _, _, _, lowering, drawn, _, _, _, _, result, after, handled, _⟩ :=
    handle_lowers [] (.start .empty)
      (show unpacking.child? "parameters" = some unpackingList from rfl) rfl
      (by decide) (by decide) printed trailless
  rw [drawn, fresh] at lowering
  exact ⟨rfl, ⟨children, lowering⟩, by rw [handled], by decide +kernel⟩

end Functions

end ScriptTyping
