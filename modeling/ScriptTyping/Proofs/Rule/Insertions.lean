import Mathlib.Algebra.GroupWithZero.Nat
import ScriptTyping.Proofs.Node.Parts
import ScriptTyping.Proofs.Rule.Converts
import ScriptTyping.Proofs.Rule.Records

set_option autoImplicit false

namespace ScriptTyping

open ScriptTyping.Tree

namespace Rule

def annotatedKinds : List String :=
  "variable_declarator" :: Functions.parameterKinds ++ Functions.kinds

def isInserted (kind : String) (child : Node) : Bool :=
  child.kind == "type_annotation" && child.label.origin.isNone && annotatedKinds.contains kind &&
    child.slot == some (if Functions.kinds.contains kind then "return_type" else "type")

def insertedHints (tree : Node) : Nat :=
  (tree.subtrees.map fun part => part.children.countP (isInserted part.kind)).sum

def hintsUnder (kind : String) (children : List Node) : Nat :=
  children.countP (isInserted kind) + (children.map insertedHints).sum

variable {kind : String} {tree child : Node}

@[simp]
theorem hintsUnder_nil : hintsUnder kind [] = 0 := rfl

@[simp]
theorem hintsUnder_cons (child : Node) (rest : List Node) :
    hintsUnder kind (child :: rest) =
      (if isInserted kind child then 1 else 0) + insertedHints child + hintsUnder kind rest := by
  simp only [hintsUnder, List.countP_cons, List.map_cons, List.sum_cons]
  omega

@[simp]
theorem hintsUnder_append (left right : List Node) :
    hintsUnder kind (left ++ right) = hintsUnder kind left + hintsUnder kind right := by
  simp only [hintsUnder, List.countP_append, List.map_append, List.sum_append]
  omega

theorem insertedHints_eq (tree : Node) :
    insertedHints tree = hintsUnder tree.kind tree.children := by
  obtain ⟨label, children⟩ := tree
  have below : ((children.flatMap subtrees).map fun part =>
      part.children.countP (isInserted part.kind)).sum = (children.map insertedHints).sum := by
    induction children with
    | nil => rfl
    | cons child rest ih =>
        simp only [List.flatMap_cons, List.map_append, List.sum_append, List.map_cons,
          List.sum_cons, ih, insertedHints]
  rw [insertedHints, subtrees_node, List.map_cons, List.sum_cons, below]
  rfl

theorem insertedHints_withChildren (children : List Node) :
    insertedHints (tree.withChildren children) = hintsUnder tree.kind children :=
  insertedHints_eq _

theorem not_isInserted (plain : kind ∉ annotatedKinds) (child : Node) :
    isInserted kind child = false := by
  simp [isInserted, plain]

theorem not_isInserted_of_slot {slot : String} (inside : child.slot = some slot)
    (type : slot ≠ "type") (result : slot ≠ "return_type") : isInserted kind child = false := by
  unfold isInserted
  rw [inside]
  split <;> simp [type, result]

theorem not_isInserted_of_kind (other : child.kind ≠ "type_annotation") :
    isInserted kind child = false := by
  simp [isInserted, other]

theorem not_isInserted_of_origin (read : child.label.origin ≠ none) :
    isInserted kind child = false := by
  cases origin : child.label.origin with
  | none => exact absurd origin read
  | some number => simp [isInserted, origin]

theorem hintsUnder_plain (plain : kind ∉ annotatedKinds) (children : List Node) :
    hintsUnder kind children = (children.map insertedHints).sum := by
  have none : children.countP (isInserted kind) = 0 :=
    List.countP_eq_zero.mpr fun child _ => by simp [not_isInserted plain child]
  rw [hintsUnder, none, Nat.zero_add]

theorem isInserted_congr {old new : Node} (kinds : new.kind = old.kind)
    (slots : new.slot = old.slot) (origins : new.label.origin = old.label.origin) :
    isInserted kind new = isInserted kind old := by
  simp [isInserted, kinds, slots, origins]

theorem insertedHints_relabel {label other : Label} (same : other.kind = label.kind)
    (children : List Node) :
    insertedHints (.node other children) = insertedHints (.node label children) := by
  rw [insertedHints_eq, insertedHints_eq]
  exact congrArg (fun kind => hintsUnder kind children) same

@[simp]
theorem insertedHints_withSlot (tree : Node) (slot : Option String) :
    insertedHints (tree.withSlot slot) = insertedHints tree := by
  obtain ⟨label, children⟩ := tree
  exact insertedHints_relabel rfl children

theorem isInserted_withTrivia (kind lead : String) (tree : Node) :
    isInserted kind (tree.withTrivia lead) = isInserted kind tree := by
  obtain ⟨other, same⟩ := label_withTrivia lead tree
  exact isInserted_congr (kind_withTrivia lead tree) (slot_withTrivia lead tree) (by rw [same])

@[simp]
theorem insertedHints_withTrivia (lead : String) (tree : Node) :
    insertedHints (tree.withTrivia lead) = insertedHints tree := by
  induction tree using lead_induct with
  | leaf label children leaf =>
      rw [withTrivia_leaf lead children leaf]
      exact insertedHints_relabel rfl children
  | empty tree empty => rw [withTrivia_of_leaves_nil lead empty]
  | split label left first right inner before present ih =>
      rw [withTrivia_split lead inner left first right before present, insertedHints_eq,
        insertedHints_eq]
      simp only [children_node, hintsUnder_append, hintsUnder_cons, ih]
      rw [isInserted_withTrivia]
      rfl

@[simp]
theorem insertedHints_leaf (kind token lead : String) (slot : Option String) :
    insertedHints (.leaf kind token lead slot) = 0 := insertedHints_eq _

@[simp]
theorem insertedHints_mark (token lead : String) : insertedHints (.mark token lead) = 0 :=
  insertedHints_eq _

@[simp]
theorem insertedHints_hint (hint : TypeHint) (slot : Option String) :
    insertedHints (hint.toNode slot) = 0 := by
  have plain : "type_annotation" ∉ annotatedKinds := by decide
  rw [TypeHint.toNode, insertedHints_eq]
  exact (hintsUnder_plain plain _).trans (by simp [Tree.branch])

theorem isInserted_type (typed : kind ∈ "variable_declarator" :: Functions.parameterKinds)
    (hint : TypeHint) : isInserted kind (hint.toNode (some "type")) = true := by
  have each : ∀ kind ∈ "variable_declarator" :: Functions.parameterKinds,
      isInserted kind (TypeHint.unknown.toNode (some "type")) = true := by decide
  exact each kind typed

theorem isInserted_result (function : kind ∈ Functions.kinds) :
    isInserted kind (TypeHint.unknown.toNode (some "return_type")) = true := by
  have each : ∀ kind ∈ Functions.kinds,
      isInserted kind (TypeHint.unknown.toNode (some "return_type")) = true := by decide
  exact each kind function

def Read (tree : Node) : Prop := ∀ part ∈ tree.subtrees, part.label.origin ≠ none

theorem Read.below (read : Read tree) {part : Node} (lower : part ∈ tree.subtrees) : Read part :=
  fun deeper within => read deeper (mem_subtrees_trans within lower)

theorem Read.insertedHints_eq_zero (read : Read tree) : insertedHints tree = 0 := by
  have each : ∀ part ∈ tree.subtrees, part.children.countP (isInserted part.kind) = 0 := by
    refine fun part below => List.countP_eq_zero.mpr fun child present => ?_
    have known := read child (mem_subtrees_trans (child_mem_subtrees present) below)
    simp [not_isInserted_of_origin known]
  rw [insertedHints, List.map_congr_left each]
  simp

theorem insertedHints_annotate (declarator : tree.kind = "variable_declarator")
    (named : tree.hasChild "name" = true) :
    insertedHints (Declarations.annotate tree) = insertedHints tree + 1 := by
  obtain ⟨name, present⟩ := child?_of_hasChild named
  obtain ⟨left, right, split, before, inside⟩ := (child?_eq_some_iff _ _ _).mp present
  let hint := TypeHint.infer (tree.child? "value")
  obtain ⟨front, back, rfl, behind⟩ :=
    Children.insertBehind_eq "!" (hint.toNode (some "type")) right
  have typed : isInserted "variable_declarator" (hint.toNode (some "type")) = true :=
    isInserted_type (by simp) hint
  rw [Declarations.annotate, insertedHints_withChildren, insertedHints_eq, split,
    Children.insertAfterMarked_split before inside, declarator]
  rw [show TypeHint.infer (tree.child? "value") = hint from rfl, behind]
  simp only [hintsUnder_append, hintsUnder_cons, typed, insertedHints_hint, if_true]
  omega

section Functions

open Functions

theorem insertedHints_annotateParameter {pattern : Node} (parameter : child.kind ∈ parameterKinds)
    (shown : child.child? "pattern" = some pattern) :
    insertedHints (annotateParameter child) = insertedHints child + 1 := by
  obtain ⟨left, middle, rest, split, typed, _⟩ := typed_split shown
  have hint : isInserted child.kind (TypeHint.unknown.toNode (some "type")) = true :=
    isInserted_type (.tail _ parameter) _
  rw [typed, insertedHints_withChildren, insertedHints_eq, split]
  simp only [hintsUnder_append, hintsUnder_cons, hint, insertedHints_hint, if_true]
  omega

theorem insertedHints_lowered {pattern : Node} (parameter : child.kind ∈ parameterKinds)
    (shown : child.child? "pattern" = some pattern) (name : String) :
    insertedHints (annotateParameter (renamed name child)) + insertedHints pattern =
      insertedHints child + 1 := by
  obtain ⟨left, middle, rest, split, _, named⟩ := typed_split shown
  have hint : isInserted child.kind (TypeHint.unknown.toNode (some "type")) = true :=
    isInserted_type (.tail _ parameter) _
  have old : isInserted child.kind pattern = false :=
    not_isInserted_of_slot (slot_of_child? shown) (by decide) (by decide)
  have new : isInserted child.kind
      (.leaf "identifier" name pattern.trivia (some "pattern")) = false :=
    not_isInserted_of_slot (show Tree.slot (.leaf _ _ _ _) = some "pattern" from rfl) (by decide)
      (by decide)
  rw [named, insertedHints_withChildren, insertedHints_eq child, split]
  simp only [hintsUnder_append, hintsUnder_cons, hint, old, new, insertedHints_hint,
    insertedHints_leaf, if_true, Bool.false_eq_true, if_false]
  omega

theorem insertedHints_branch (plain : kind ∉ annotatedKinds) (children : List Node)
    (slot : Option String) :
    insertedHints (.branch kind children slot) = (children.map insertedHints).sum :=
  (insertedHints_eq _).trans (hintsUnder_plain plain children)

theorem insertedHints_statement (pattern : Node) (name : String) :
    insertedHints (Bindings.statement pattern name) = insertedHints pattern := by
  have declarator : insertedHints (.branch "variable_declarator"
      [(pattern.withSlot (some "name")).withTrivia " ", .mark "=" " ",
        .leaf "identifier" name " " (some "value")] none) = insertedHints pattern := by
    have moved : isInserted "variable_declarator"
        ((pattern.withSlot (some "name")).withTrivia " ") = false :=
      not_isInserted_of_slot (by rw [slot_withTrivia]; rfl) (by decide) (by decide)
    have equal : isInserted "variable_declarator" (.mark "=" " ") = false := by decide
    have value : isInserted "variable_declarator" (.leaf "identifier" name " " (some "value")) =
        false := not_isInserted_of_kind (show "identifier" ≠ "type_annotation" by decide)
    rw [insertedHints_eq]
    simp only [Tree.branch, children_node, Tree.kind, label_node, hintsUnder_cons, hintsUnder_nil,
      moved, equal, value, insertedHints_withTrivia, insertedHints_withSlot, insertedHints_mark,
      insertedHints_leaf, Bool.false_eq_true, if_false]
    omega
  rw [Bindings.statement, insertedHints_branch (by decide)]
  simp only [List.map_cons, List.map_nil, List.sum_cons, List.sum_nil, insertedHints_leaf,
    insertedHints_mark, declarator]
  omega

theorem hintsUnder_annotates {canLower : Bool} {before after bindings : List Node}
    (annotates : Annotates canLower before after bindings) :
    hintsUnder kind after + (bindings.map insertedHints).sum =
      hintsUnder kind before + before.countP (changes canLower) := by
  induction annotates with
  | nil => rfl
  | @same child rest after bindings settled later ih =>
      have unchanged : changes canLower child = false := by
        rcases settled with pass | keep
        next => simp [changes, pass]
        next => simp [changes, keep]
      simp only [hintsUnder_cons, List.countP_cons, unchanged, Bool.false_eq_true, if_false]
      omega
  | @typed child rest after bindings change later ih =>
      obtain ⟨parameter, pattern, shown, _⟩ := changeOf_annotate change
      have more := insertedHints_annotateParameter parameter shown
      have changed : changes canLower child = true := by simp [changes, change]
      have same : isInserted kind (annotateParameter child) = isInserted kind child :=
        isInserted_congr rfl rfl rfl
      simp only [hintsUnder_cons, List.countP_cons, changed, same, if_true]
      omega
  | @lowered child pattern rest after bindings number change later ih =>
      obtain ⟨parameter, shown, _⟩ := changeOf_lower change
      have more := insertedHints_lowered parameter shown (FreshNames.name number)
      have changed : changes canLower child = true := by simp [changes, change]
      have same : isInserted kind (annotateParameter (renamed (FreshNames.name number) child)) =
          isInserted kind child := isInserted_congr rfl rfl rfl
      simp only [hintsUnder_cons, List.countP_cons, changed, same, if_true, List.map_cons,
        List.sum_cons, insertedHints_statement]
      omega

theorem insertedHints_asBlock (body : Node) :
    insertedHints (Bindings.asBlock body) = insertedHints body := by
  unfold Bindings.asBlock
  split
  next => rfl
  next =>
    rw [Bindings.returning, insertedHints_branch (by decide)]
    simp only [List.map_cons, List.map_nil, List.sum_cons, List.sum_nil, insertedHints_mark]
    rw [insertedHints_branch (by decide)]
    simp

theorem hints_setOff (following : List Node) :
    ((Bindings.setOff following).map insertedHints).sum = (following.map insertedHints).sum := by
  cases following with
  | nil => rfl
  | cons first rest =>
      obtain ⟨label, children⟩ := first
      rw [Bindings.setOff]
      split
      next =>
        simp only [List.map_cons, List.sum_cons, Nat.add_right_cancel_iff]
        exact insertedHints_relabel (show Label.kind _ = label.kind from rfl) children
      next => rfl

theorem insertedHints_prepended {block extended : Node} {statements : List Node}
    (isBlock : block.kind = Bindings.blockKind)
    (prepended : Bindings.prepend? block statements = some extended) :
    insertedHints extended = insertedHints block + (statements.map insertedHints).sum := by
  obtain ⟨left, brace, rest, split, _, _, rfl⟩ := Bindings.prepend?_cases prepended
  have plain : block.kind ∉ annotatedKinds := by
    rw [isBlock]
    decide
  have moved : (statements.map (Tree.withTrivia (Bindings.indentBefore rest))).map insertedHints =
      statements.map insertedHints := by simp
  rw [insertedHints_withChildren, insertedHints_eq block, hintsUnder_plain plain,
    hintsUnder_plain plain, split]
  simp only [List.map_append, List.map_cons, List.sum_append, List.sum_cons, moved, hints_setOff]
  omega

theorem insertedHints_parenthesized (bare : Node) :
    insertedHints (parenthesized bare) = insertedHints bare := by
  have parameter : insertedHints (.branch "required_parameter"
      [(bare.withTrivia "").withSlot (some "pattern")] none) = insertedHints bare := by
    have moved : isInserted "required_parameter" ((bare.withTrivia "").withSlot (some "pattern")) =
        false := not_isInserted_of_slot (show _ = some "pattern" from rfl) (by decide) (by decide)
    rw [insertedHints_eq]
    simp [Tree.branch, Tree.kind, moved]
  rw [parenthesized, insertedHints_branch (by decide)]
  simp [parameter]

theorem insertedHints_started {started : Node} (start : withParameters? tree = some started) :
    insertedHints started = insertedHints tree := by
  rcases withParameters?_cases start with ⟨_, rfl⟩ | ⟨_, bare, left, right, shown, split, rfl⟩
  next => rfl
  next =>
    have old : isInserted tree.kind bare = false :=
      not_isInserted_of_slot (slot_of_child? shown) (by decide) (by decide)
    have new : isInserted tree.kind (parenthesized bare) = false :=
      not_isInserted_of_kind (show "formal_parameters" ≠ "type_annotation" by decide)
    rw [insertedHints_withChildren, insertedHints_eq, split]
    simp only [hintsUnder_append, hintsUnder_cons, old, new, insertedHints_parenthesized]

theorem insertedHints_bound {bindings : List Node} {bound : Node}
    (binds : withBindings? bindings tree = some bound) :
    insertedHints bound = insertedHints tree + (bindings.map insertedHints).sum := by
  rcases withBindings?_cases binds with
    ⟨rfl, rfl⟩ | ⟨_, body, block, left, right, shown, split, _, prepended, rfl⟩
  next => simp
  next =>
    have inside := slot_of_child? shown
    have old : isInserted tree.kind body = false :=
      not_isInserted_of_slot inside (by decide) (by decide)
    have new : isInserted tree.kind block = false :=
      not_isInserted_of_slot (slot_prepended inside prepended) (by decide) (by decide)
    have more := insertedHints_prepended (kind_asBlock body) prepended
    rw [insertedHints_asBlock] at more
    rw [insertedHints_withChildren, insertedHints_eq, split]
    simp only [hintsUnder_append, hintsUnder_cons, old, new, more]
    omega

theorem insertedHints_resulted {bound result list : Node} (function : bound.kind ∈ kinds)
    (present : bound.child? "parameters" = some list) (results : Resulted bound result) :
    insertedHints result = insertedHints bound + resultEdits bound := by
  cases results with
  | kept typed => simp [resultEdits, typed]
  | barred name barred => simp [resultEdits, barred]
  | added absent free =>
      obtain ⟨left, right, split, before, inside⟩ := (child?_eq_some_iff _ _ _).mp present
      have hint := isInserted_result function
      rw [insertedHints_withChildren, insertedHints_eq bound, split,
        Children.insertAfter_split before inside]
      simp only [hintsUnder_append, hintsUnder_cons, hint, insertedHints_hint, if_true, resultEdits,
        absent, free, Option.isSome_none, Bool.or_self, Bool.false_eq_true, if_false]
      omega

theorem insertedHints_signed {started list bound result : Node} {children bindings : List Node}
    (function : tree.kind ∈ kinds) (start : withParameters? tree = some started)
    (present : started.child? "parameters" = some list)
    (annotates : Annotates (started.hasChild "body") list.children children bindings)
    (binds : withBindings? bindings (listed started list children) = some bound)
    (results : Resulted bound result) :
    insertedHints result = insertedHints tree +
      (list.children.countP (changes (started.hasChild "body")) + resultEdits bound) := by
  obtain ⟨left, right, split, _, equal⟩ := listed_split present children
  have function' : bound.kind ∈ kinds := by
    rwa [Tree.kind, label_bound start binds]
  have present' : bound.child? "parameters" = some (list.withChildren children) := by
    rw [child?_bound binds (by decide), child?_list present]
  have first := insertedHints_started start
  have second : insertedHints (listed started list children) +
      (bindings.map insertedHints).sum = insertedHints started +
        list.children.countP (changes (started.hasChild "body")) := by
    have more := @hintsUnder_annotates list.kind _ _ _ _ annotates
    have same : isInserted started.kind (list.withChildren children) =
        isInserted started.kind list := isInserted_congr rfl rfl rfl
    rw [equal, insertedHints_withChildren, insertedHints_eq started, split]
    simp only [hintsUnder_append, hintsUnder_cons, same, insertedHints_withChildren,
      insertedHints_eq list]
    omega
  have third := insertedHints_bound binds
  have fourth := insertedHints_resulted function' present' results
  omega

end Functions

section LoopHeaders

open LoopHeaders

theorem insertedHints_stripDeclarator {declarator : Node} (read : Read declarator) :
    insertedHints (stripDeclarator declarator) = insertedHints declarator := by
  unfold stripDeclarator
  split
  next =>
    cases shown : declarator.child? "type" with
    | none =>
        rw [Children.erase_absent "type" ((child?_eq_none_iff _ _).mp shown),
          withChildren_children]
    | some annotation =>
        obtain ⟨left, right, split, before, inside⟩ := (child?_eq_some_iff _ _ _).mp shown
        have known := read.below (child_mem_subtrees (mem_of_child? shown))
        have own : isInserted declarator.kind annotation = false :=
          not_isInserted_of_origin (known annotation (self_mem_subtrees annotation))
        rw [insertedHints_withChildren, insertedHints_eq, split,
          Children.erase_split before inside]
        simp [own, known.insertedHints_eq_zero]
  next => rfl

theorem hints_strip (child : Node)
    (read : isTypeHint child = true ∨ isDeclaration child = true → Read child) :
    ((LoopHeaders.strip child).toList.map insertedHints).sum = insertedHints child := by
  unfold LoopHeaders.strip
  split
  next hint => simp [(read (.inl hint)).insertedHints_eq_zero]
  next =>
    split
    next declares =>
      have known := read (.inr declares)
      have plain : child.kind ∉ annotatedKinds := by
        rcases kind_of_isDeclaration declares with kind | kind <;> rw [kind] <;> decide
      have same : (child.children.map stripDeclarator).map insertedHints =
          child.children.map insertedHints := by
        rw [List.map_map]
        exact List.map_congr_left fun declarator member =>
          insertedHints_stripDeclarator (known.below (child_mem_subtrees member))
      rw [Option.toList_some, List.map_singleton, List.sum_singleton, insertedHints_withChildren,
        insertedHints_eq, hintsUnder_plain plain, hintsUnder_plain plain, same]
    next => simp

theorem insertedHints_sanitize (loop : tree.kind = Declarations.iterationKind)
    (read : ∀ child ∈ tree.children, isTypeHint child = true ∨ isDeclaration child = true →
      Read child) : insertedHints (sanitize tree) = insertedHints tree := by
  have plain : tree.kind ∉ annotatedKinds := by
    rw [loop]
    decide
  have known : ∀ child ∈ header tree.children,
      isTypeHint child = true ∨ isDeclaration child = true → Read child :=
    fun child member => read child ((List.takeWhile_sublist _).subset member)
  have stripped : (((header tree.children).filterMap LoopHeaders.strip).map insertedHints).sum =
      ((header tree.children).map insertedHints).sum := by
    generalize header tree.children = children at known
    induction children with
    | nil => rfl
    | cons child rest ih =>
        have here := hints_strip child (known child (by simp))
        have later := ih fun other member => known other (by simp [member])
        rw [List.filterMap_cons]
        cases kept : LoopHeaders.strip child with
        | none =>
            simp only [kept, Option.toList_none, List.map_nil, List.sum_nil] at here
            simp only [List.map_cons, List.sum_cons, later]
            omega
        | some other =>
            simp only [kept, Option.toList_some, List.map_singleton, List.sum_singleton] at here
            simp only [List.map_cons, List.sum_cons, later, here]
  have whole : tree.children = header tree.children ++ afterHeader tree.children :=
    List.takeWhile_append_dropWhile.symm
  rw [sanitize, insertedHints_withChildren, insertedHints_eq, hintsUnder_plain plain,
    hintsUnder_plain plain, List.map_append, List.sum_append, stripped, ← List.sum_append,
    ← List.map_append, ← whole]

end LoopHeaders

theorem insertedHints_shortened {source : Node}
    (imported : tree.kind = "import_statement" ∨ tree.kind = "export_statement")
    (present : tree.child? "source" = some source) (string : source.kind = "string")
    (read : Read source) (lead : String) (quote : Char) (specifier : String) :
    insertedHints (tree.withChildren (Children.replace "source"
      (source.withChildren (Imports.quotedTokens lead quote specifier)) tree.children)) =
        insertedHints tree := by
  obtain ⟨left, right, split, before, inside⟩ := (child?_eq_some_iff _ _ _).mp present
  have plain : tree.kind ∉ annotatedKinds := by
    rcases imported with kind | kind <;> rw [kind] <;> decide
  have tokens : insertedHints (source.withChildren (Imports.quotedTokens lead quote specifier)) =
      0 := by
    rw [insertedHints_withChildren, hintsUnder_plain (by rw [string]; decide)]
    simp [Imports.quotedTokens]
  rw [insertedHints_withChildren, insertedHints_eq, hintsUnder_plain plain, hintsUnder_plain plain,
    Children.replace, split, Children.modify_split _ before inside]
  simp [tokens, read.insertedHints_eq_zero]

end Rule

end ScriptTyping
