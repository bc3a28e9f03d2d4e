import ScriptTyping.Proofs.Rule.Accounting
import ScriptTyping.Proofs.Rule.Detection

set_option autoImplicit false

namespace ScriptTyping

open ScriptTyping.Tree

namespace Rule

def isElement (part : Node) : Bool := !part.isLeaf && isMarkup part.label

def elements (tree : Node) : Nat := tree.subtrees.countP isElement

variable {tree child : Node}

theorem elements_eq (tree : Node) :
    elements tree = (if isElement tree then 1 else 0) + (tree.children.map elements).sum :=
  countP_subtrees isElement tree

theorem elements_eq_zero_iff (tree : Node) :
    elements tree = 0 ↔ ∀ part ∈ tree.subtrees, isElement part = false := by
  simp [elements, List.countP_eq_zero]

theorem elements_pos_iff (tree : Node) :
    0 < elements tree ↔ ∃ part ∈ tree.subtrees, part.isLeaf = false ∧ isMarkup part.label = true := by
  simp [elements, List.countP_pos_iff, isElement]

theorem elements_withChildren (tree : Node) (children : List Node) :
    elements (tree.withChildren children) + (tree.children.map elements).sum =
      elements tree + (children.map elements).sum := by
  have own : isElement (tree.withChildren children) = isElement tree := rfl
  rw [elements_eq, elements_eq tree, own, children_withChildren]
  omega

theorem elements_of_sum {children : List Node}
    (same : (children.map elements).sum = (tree.children.map elements).sum) :
    elements (tree.withChildren children) = elements tree := by
  have both := elements_withChildren tree children
  omega

theorem elements_relabel {label other : Label} (kind : other.kind = label.kind)
    (token : other.token = label.token) (children : List Node) :
    elements (.node other children) = elements (.node label children) := by
  have own : isElement (.node other children) = isElement (.node label children) := by
    simp [isElement, isMarkup, Tree.isLeaf, Label.isLeaf, kind, token]
  rw [elements_eq, elements_eq (.node label children), own]
  rfl

theorem elements_other (tree : Node) (other : tree.kind ∉ Markup.kinds) :
    elements tree = (tree.children.map elements).sum := by
  have own : isElement tree = false := by
    simp [isElement, isMarkup, show tree.label.kind ∉ Markup.kinds from other]
  rw [elements_eq, own]
  simp

@[simp]
theorem elements_withSlot (tree : Node) (slot : Option String) :
    elements (tree.withSlot slot) = elements tree := by
  obtain ⟨label, children⟩ := tree
  exact elements_relabel rfl rfl children

@[simp]
theorem elements_withTrivia (lead : String) (tree : Node) :
    elements (tree.withTrivia lead) = elements tree := by
  induction tree using lead_induct with
  | leaf label children leaf =>
      rw [withTrivia_leaf lead children leaf]
      exact elements_relabel rfl rfl children
  | empty tree empty => rw [withTrivia_of_leaves_nil lead empty]
  | split label left first right inner before present ih =>
      rw [withTrivia_split lead inner left first right before present]
      have same : ((left ++ first.withTrivia lead :: right).map elements).sum =
          ((left ++ first :: right).map elements).sum := by
        rw [List.map_append, List.map_append, List.map_cons, List.map_cons, ih]
      exact @elements_of_sum (.node label _) _ same

@[simp]
theorem elements_leaf (kind token lead : String) (slot : Option String) :
    elements (.leaf kind token lead slot) = 0 := elements_eq _

@[simp]
theorem elements_mark (token lead : String) : elements (.mark token lead) = 0 := elements_eq _

theorem elements_branch {kind : String} (other : kind ∉ Markup.kinds) (children : List Node)
    (slot : Option String) :
    elements (.branch kind children slot) = (children.map elements).sum :=
  elements_other (.branch kind children slot) other

@[simp]
theorem elements_hint (hint : TypeHint) (slot : Option String) : elements (hint.toNode slot) = 0 := by
  rw [TypeHint.toNode, elements_branch (by decide)]
  simp

theorem elements_sameButLead {old new : Node} (same : SameButLead old new) :
    elements new = elements old := by
  rcases same with rfl | ⟨lead, _, rfl⟩
  · rfl
  · exact elements_withTrivia lead old

theorem sum_insertBehind {mark : String} {inserted : Node} (none : elements inserted = 0)
    (children : List Node) :
    ((Children.insertBehind mark inserted children).map elements).sum = (children.map elements).sum := by
  obtain ⟨left, right, rfl, behind⟩ := Children.insertBehind_eq mark inserted children
  simp [behind, none]

theorem sum_insertAfterMarked {slot mark : String} {inserted : Node}
    (none : elements inserted = 0) (children : List Node) :
    ((Children.insertAfterMarked slot mark inserted children).map elements).sum =
      (children.map elements).sum := by
  induction children with
  | nil => rfl
  | cons child rest ih =>
      rw [Children.insertAfterMarked]
      split
      · simp [sum_insertBehind none]
      · simp [ih]

theorem sum_insertAfter {slot : String} {inserted : Node} (none : elements inserted = 0)
    (children : List Node) :
    ((Children.insertAfter slot inserted children).map elements).sum = (children.map elements).sum := by
  induction children with
  | nil => rfl
  | cons child rest ih =>
      rw [Children.insertAfter]
      split
      · simp [none]
      · simp [ih]

theorem elements_annotate (tree : Node) : elements (Declarations.annotate tree) = elements tree :=
  elements_of_sum (sum_insertAfterMarked (elements_hint _ _) tree.children)

section Functions

open Functions

theorem elements_annotateParameter (child : Node) :
    elements (annotateParameter child) = elements child :=
  elements_of_sum (sum_insertAfterMarked (elements_hint _ _) child.children)

theorem elements_renamed {pattern : Node} (shown : child.child? "pattern" = some pattern)
    (name : String) : elements (renamed name child) + elements pattern = elements child := by
  obtain ⟨left, right, split, before, inside⟩ := (child?_eq_some_iff _ _ _).mp shown
  have same := elements_withChildren child
    (left ++ .leaf "identifier" name pattern.trivia (some "pattern") :: right)
  rw [renamed, split, Children.modify_split _ before inside]
  simp only [split, List.map_append, List.map_cons, List.sum_append, List.sum_cons,
    elements_leaf] at same
  omega

theorem elements_statement (pattern : Node) (name : String) :
    elements (Bindings.statement pattern name) = elements pattern := by
  rw [Bindings.statement, elements_branch (by decide)]
  simp only [List.map_cons, List.map_nil, List.sum_cons, List.sum_nil, elements_leaf, elements_mark]
  rw [elements_branch (by decide)]
  simp

theorem elements_annotates {canLower : Bool} {before after bindings : List Node}
    (annotates : Annotates canLower before after bindings) :
    (after.map elements).sum + (bindings.map elements).sum = (before.map elements).sum := by
  induction annotates with
  | nil => rfl
  | same settled later ih =>
      simp only [List.map_cons, List.sum_cons]
      omega
  | typed change later ih =>
      simp only [List.map_cons, List.sum_cons, elements_annotateParameter]
      omega
  | lowered number change later ih =>
      have moved := elements_renamed (changeOf_lower change).2.1 (FreshNames.name number)
      simp only [List.map_cons, List.sum_cons, elements_annotateParameter, elements_statement]
      omega

theorem elements_asBlock (body : Node) : elements (Bindings.asBlock body) = elements body := by
  unfold Bindings.asBlock
  split
  · rfl
  · rw [Bindings.returning, elements_branch (by decide)]
    simp only [List.map_cons, List.map_nil, List.sum_cons, List.sum_nil, elements_mark]
    rw [elements_branch (by decide)]
    simp

theorem sum_setOff (following : List Node) :
    ((Bindings.setOff following).map elements).sum = (following.map elements).sum := by
  cases following with
  | nil => rfl
  | cons first rest =>
      obtain ⟨label, children⟩ := first
      rw [Bindings.setOff]
      split
      · rw [List.map_cons, List.map_cons, List.sum_cons, List.sum_cons]
        exact congrArg (· + _) (@elements_relabel label _ rfl rfl children)
      · rfl

theorem elements_prepended {block extended : Node} {statements : List Node}
    (prepended : Bindings.prepend? block statements = some extended) :
    elements extended = elements block + (statements.map elements).sum := by
  obtain ⟨left, brace, rest, split, _, _, rfl⟩ := Bindings.prepend?_cases prepended
  have moved : (statements.map (Tree.withTrivia (Bindings.indentBefore rest))).map elements =
      statements.map elements := by simp
  have same := elements_withChildren block (left ++ brace ::
    (statements.map (Tree.withTrivia (Bindings.indentBefore rest)) ++ Bindings.setOff rest))
  simp only [split, List.map_append, List.map_cons, List.sum_append, List.sum_cons, moved,
    sum_setOff] at same ⊢
  omega

theorem elements_parenthesized (bare : Node) : elements (parenthesized bare) = elements bare := by
  rw [parenthesized, elements_branch (by decide)]
  simp only [List.map_cons, List.map_nil, List.sum_cons, List.sum_nil, elements_mark]
  rw [elements_branch (by decide)]
  simp

theorem elements_exchanged {left right : List Node} {old : Node} (new : Node)
    (split : tree.children = left ++ old :: right) :
    elements (tree.withChildren (left ++ new :: right)) + elements old =
      elements tree + elements new := by
  have same := elements_withChildren tree (left ++ new :: right)
  simp only [split, List.map_append, List.map_cons, List.sum_append, List.sum_cons] at same
  omega

theorem elements_signed {started list bound result : Node} {children bindings : List Node}
    (start : withParameters? tree = some started)
    (present : started.child? "parameters" = some list)
    (annotates : Annotates (started.hasChild "body") list.children children bindings)
    (binds : withBindings? bindings (listed started list children) = some bound)
    (results : Resulted bound result) : elements result = elements tree := by
  have first : elements started = elements tree := by
    rcases withParameters?_cases start with ⟨_, rfl⟩ | ⟨_, bare, left, right, _, split, rfl⟩
    · rfl
    · have same := elements_exchanged (parenthesized bare) split
      rw [elements_parenthesized] at same
      exact Nat.add_right_cancel same
  have second : elements (listed started list children) + (bindings.map elements).sum =
      elements started := by
    obtain ⟨left, right, split, _, equal⟩ := listed_split present children
    have moved := elements_annotates annotates
    have inside := elements_withChildren list children
    have same := elements_exchanged (list.withChildren children) split
    rw [equal]
    omega
  have third : elements bound =
      elements (listed started list children) + (bindings.map elements).sum := by
    rcases withBindings?_cases binds with
      ⟨rfl, rfl⟩ | ⟨_, body, block, left, right, _, split, _, prepended, rfl⟩
    · simp
    · have more := elements_prepended prepended
      rw [elements_asBlock] at more
      have same := elements_exchanged block split
      omega
  have fourth : elements result = elements bound := by
    cases results with
    | kept | barred => rfl
    | added => exact elements_of_sum (sum_insertAfter (elements_hint _ _) bound.children)
  omega

end Functions

section LoopHeaders

open LoopHeaders

theorem elements_stripDeclarator {declarator : Node}
    (bare : isDeclarator declarator = true → ∀ hint ∈ declarator.children,
      hint.slot = some "type" → elements hint = 0) :
    elements (stripDeclarator declarator) = elements declarator := by
  unfold stripDeclarator
  split
  next declares =>
    cases shown : declarator.child? "type" with
    | none =>
        rw [Children.erase_absent "type" ((child?_eq_none_iff _ _).mp shown), withChildren_children]
    | some hint =>
        obtain ⟨left, right, split, before, inside⟩ := (child?_eq_some_iff _ _ _).mp shown
        have none := bare declares hint (mem_of_child? shown) (slot_of_child? shown)
        have same := elements_withChildren declarator (left ++ right)
        rw [split, Children.erase_split before inside]
        simp only [split, List.map_append, List.map_cons, List.sum_append, List.sum_cons,
          none] at same
        omega
  next => rfl

def Unmarked (loop : Node) : Prop :=
  ∀ child ∈ header loop.children, (isTypeHint child = true → elements child = 0) ∧
    (isDeclaration child = true → ∀ declarator ∈ child.children, isDeclarator declarator = true →
      ∀ hint ∈ declarator.children, hint.slot = some "type" → elements hint = 0)

theorem sum_strip {child : Node} (none : isTypeHint child = true → elements child = 0)
    (bare : isDeclaration child = true → ∀ declarator ∈ child.children,
      isDeclarator declarator = true → ∀ hint ∈ declarator.children, hint.slot = some "type" →
        elements hint = 0) :
    ((LoopHeaders.strip child).toList.map elements).sum = elements child := by
  unfold LoopHeaders.strip
  split
  next hint => simp [none hint]
  next =>
    split
    next declares =>
      have same : (child.children.map stripDeclarator).map elements =
          child.children.map elements := by
        rw [List.map_map]
        exact List.map_congr_left fun declarator member =>
          elements_stripDeclarator (bare declares declarator member)
      have kept := elements_of_sum (congrArg List.sum same)
      simpa using kept
    next => simp

theorem elements_sanitize (unmarked : Unmarked tree) : elements (sanitize tree) = elements tree := by
  have stripped : (((header tree.children).filterMap LoopHeaders.strip).map elements).sum =
      ((header tree.children).map elements).sum := by
    unfold Unmarked at unmarked
    generalize header tree.children = children at unmarked
    induction children with
    | nil => rfl
    | cons child rest ih =>
        obtain ⟨none, bare⟩ := unmarked child (by simp)
        have here := sum_strip none bare
        have later := ih fun other member => unmarked other (by simp [member])
        rw [List.filterMap_cons]
        cases kept : LoopHeaders.strip child with
        | none =>
            simp only [kept, Option.toList_none, List.map_nil, List.sum_nil] at here
            simp only [List.map_cons, List.sum_cons, later]
            omega
        | some other =>
            simp only [kept, Option.toList_some, List.map_singleton, List.sum_singleton] at here
            simp only [List.map_cons, List.sum_cons, later, here]
  have whole : (tree.children.map elements).sum =
      ((header tree.children).map elements).sum + ((afterHeader tree.children).map elements).sum := by
    rw [← List.sum_append, ← List.map_append, header, afterHeader, List.takeWhile_append_dropWhile]
  refine elements_of_sum ?_
  rw [List.map_append, List.sum_append, stripped, ← whole]

end LoopHeaders

theorem elements_shortened {source : Node} (present : tree.child? "source" = some source)
    (string : source.kind = "string") (none : elements source = 0) (lead : String) (quote : Char)
    (specifier : String) :
    elements (tree.withChildren (Children.replace "source"
      (source.withChildren (Imports.quotedTokens lead quote specifier)) tree.children)) =
        elements tree := by
  obtain ⟨left, right, split, before, inside⟩ := (child?_eq_some_iff _ _ _).mp present
  have tokens : elements (source.withChildren (Imports.quotedTokens lead quote specifier)) = 0 := by
    have plain : source.kind ∉ Markup.kinds := by
      rw [string]
      decide
    rw [elements_other (source.withChildren _) plain]
    simp [Imports.quotedTokens]
  have same := elements_exchanged
    (source.withChildren (Imports.quotedTokens lead quote specifier)) split
  rw [Children.replace, split, Children.modify_split _ before inside]
  omega

end Rule

end ScriptTyping
