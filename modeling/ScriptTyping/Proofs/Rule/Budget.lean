import ScriptTyping.Proofs.Rule.Converts
import ScriptTyping.Proofs.Rule.Extent

set_option autoImplicit false

namespace ScriptTyping

open ScriptTyping.Tree

namespace Rule

variable {tree : Node}

theorem extent_annotate (kind : tree.kind = "variable_declarator")
    (named : tree.hasChild "name" = true) (free : tree.hasChild "type" = false) :
    extent (Declarations.annotate tree) ≤ extent tree := by
  obtain ⟨name, present⟩ := child?_of_hasChild named
  generalize hint : (TypeHint.infer (tree.child? "value")).toNode (some "type") = annotation
  have three : extent annotation = 3 := by rw [← hint, extent_hint]
  have typed : annotation ∈ (Children.insertAfterMarked "name" "!" annotation tree.children).filter
      (Children.inSlot "type") :=
    List.mem_filter.mpr ⟨self_mem_insertAfterMarked annotation present, by rw [← hint]; rfl⟩
  have less := extent_le_extents typed
  have bound := extents_insertAfterMarked "name" "!" annotation tree.children
  have none : typeExtents tree.children = 0 := by
    have absent := (child?_eq_none_iff _ _).mp ((hasChild_eq_false_iff _ _).mp free)
    rw [typeExtents, List.filter_eq_nil_iff.mpr (by simpa using absent), extents_nil]
  rw [Declarations.annotate, hint, extent_declarator kind,
    extent_declarator (by rwa [kind_withChildren]), children_withChildren, typeExtents]
  omega

theorem stripDeclarator_extent (declarator : Node) :
    (LoopHeaders.stripDeclarator declarator).slot = declarator.slot ∧
      extent (LoopHeaders.stripDeclarator declarator) ≤ extent declarator := by
  unfold LoopHeaders.stripDeclarator
  split
  next kind =>
    have kind' : declarator.kind = "variable_declarator" := by
      simpa [LoopHeaders.isDeclarator] using kind
    refine ⟨rfl, ?_⟩
    cases present : declarator.child? "type" with
    | none =>
        have same := Children.erase_absent "type" ((child?_eq_none_iff _ _).mp present)
        exact Nat.le_of_eq (by rw [same, withChildren_children])
    | some annotation =>
        obtain ⟨left, right, same, before, inside⟩ := (child?_eq_some_iff _ _ _).mp present
        rw [extent_declarator kind', extent_declarator (by rwa [kind_withChildren]),
          children_withChildren, same, Children.erase_split before inside]
        simp only [typeExtents, List.filter_append, List.filter_cons, inside, if_true,
          extents_append, extents_cons]
        omega
  next => exact ⟨rfl, Nat.le_refl _⟩

theorem extents_strip (child : Node) :
    extents (LoopHeaders.strip child).toList ≤ extent child := by
  unfold LoopHeaders.strip
  split
  next => simp
  next =>
    split
    next =>
      have spares : Spares child.children (child.children.map LoopHeaders.stripDeclarator) 0 := by
        induction child.children with
        | nil => exact .nil
        | cons declarator rest ih =>
            obtain ⟨slot, less⟩ := stripDeclarator_extent declarator
            exact .cons slot less (.inl rfl) ih
      simpa using @extent_spares child (child.withChildren _) 0 rfl spares
    next => simp

theorem extents_stripped (children : List Node) :
    extents (children.filterMap LoopHeaders.strip) ≤ extents children := by
  induction children with
  | nil => simp
  | cons child rest ih =>
      have here := extents_strip child
      rw [List.filterMap_cons]
      cases stripped : LoopHeaders.strip child with
      | none =>
          simp only [extents_cons]
          omega
      | some other =>
          simp only [stripped, Option.toList_some, extents_cons, extents_nil] at here ⊢
          omega

theorem extent_sanitize (kind : tree.kind = Declarations.iterationKind) :
    extent (LoopHeaders.sanitize tree) ≤ extent tree := by
  have plain : tree.kind ∉ growingKinds := by
    rw [kind]
    decide
  have less := extents_stripped (LoopHeaders.header tree.children)
  have whole : extents (LoopHeaders.header tree.children) +
      extents (LoopHeaders.afterHeader tree.children) = extents tree.children := by
    rw [← extents_append, LoopHeaders.header, LoopHeaders.afterHeader,
      List.takeWhile_append_dropWhile]
  rw [LoopHeaders.sanitize, extent_plain (by rwa [kind_withChildren]), extent_plain plain,
    children_withChildren, extents_append]
  omega

theorem extent_statement (pattern : Node) (name : String) :
    extent (Bindings.statement pattern name) ≤ extent pattern + 9 := by
  have moved := Nat.le_trans (extent_withTrivia " " _) (extent_withSlot pattern (some "name"))
  have declarator : extent (.branch "variable_declarator"
      [(pattern.withSlot (some "name")).withTrivia " ", .mark "=" " ",
        .leaf "identifier" name " " (some "value")] none) ≤ extent pattern + 6 := by
    rw [extent_declarator rfl]
    simp only [Tree.branch, children_node, extents_cons, extents_nil,
      extent_mark (show "=" ∉ growingKinds by decide),
      extent_leaf (show "identifier" ∉ growingKinds by decide)]
    omega
  rw [Bindings.statement, extent_branch (by decide)]
  simp only [extents_cons, extents_nil, extent_mark (show ";" ∉ growingKinds by decide),
    extent_leaf (show "const" ∉ growingKinds by decide)]
  omega

theorem extent_asBlock (body : Node) : extent (Bindings.asBlock body) ≤ extent body + 6 := by
  unfold Bindings.asBlock
  split
  next => omega
  next =>
    have moved := Nat.le_trans (extent_withTrivia " " _) (extent_withSlot body none)
    have returned : extent (.branch "return_statement"
        [.mark "return" " ", (body.withSlot none).withTrivia " ", .mark ";" ""] none) ≤
          extent body + 3 := by
      rw [extent_branch (by decide)]
      simp only [extents_cons, extents_nil, extent_mark (show "return" ∉ growingKinds by decide),
        extent_mark (show ";" ∉ growingKinds by decide)]
      omega
    rw [Bindings.returning, extent_branch (by decide)]
    simp only [extents_cons, extents_nil, extent_mark (show "\x7b" ∉ growingKinds by decide),
      extent_mark (show "\x7d" ∉ growingKinds by decide)]
    omega

theorem extents_setOff (following : List Node) :
    extents (Bindings.setOff following) ≤ extents following := by
  cases following with
  | nil => simp [Bindings.setOff]
  | cons first rest =>
      obtain ⟨label, children⟩ := first
      have less := @extent_relabel label { label with lead := " " } rfl children
      rw [Bindings.setOff]
      split
      · simp only [extents_cons]
        exact Nat.add_le_add_right less _
      · exact Nat.le_refl _

theorem extent_prepended {block extended : Node} {statements : List Node}
    (kind : block.kind = Bindings.blockKind)
    (prepended : Bindings.prepend? block statements = some extended) :
    extent extended ≤ extent block + extents statements := by
  obtain ⟨left, brace, rest, split, _, _, rfl⟩ := Bindings.prepend?_cases prepended
  have plain : block.kind ∉ growingKinds := by
    rw [kind]
    decide
  have there := extents_withTrivia (Bindings.indentBefore rest) statements
  have later := extents_setOff rest
  rw [extent_plain plain, extent_plain (by rwa [kind_withChildren]), split]
  simp only [children_withChildren, extents_append, extents_cons]
  omega

theorem extent_parenthesized (bare : Node) :
    extent (Functions.parenthesized bare) ≤ extent bare + 23 := by
  have moved := Nat.le_trans (extent_withSlot (bare.withTrivia "") (some "pattern"))
    (extent_withTrivia "" bare)
  have parameter : extent (.branch "required_parameter"
      [(bare.withTrivia "").withSlot (some "pattern")] none) ≤ extent bare + 20 := by
    have kind : (Tree.branch "required_parameter"
        [(bare.withTrivia "").withSlot (some "pattern")] none).kind ∈ Functions.parameterKinds :=
      show "required_parameter" ∈ Functions.parameterKinds by decide
    rw [extent_parameter kind]
    generalize Tree.hasChild _ "type" = typed
    cases typed <;> simp only [Tree.branch, children_node, extents_cons, extents_nil, if_true,
      Bool.false_eq_true, if_false] <;> omega
  rw [Functions.parenthesized, extent_branch (by decide)]
  simp only [extents_cons, extents_nil, extent_mark (show "(" ∉ growingKinds by decide),
    extent_mark (show ")" ∉ growingKinds by decide)]
  omega

theorem extent_started {started : Node} (kind : tree.kind ∈ Functions.kinds)
    (start : Functions.withParameters? tree = some started) :
    extent started ≤ extent tree := by
  rcases Functions.withParameters?_cases start with
    ⟨_, rfl⟩ | ⟨unlisted, bare, left, right, _, split, same⟩
  · exact Nat.le_refl _
  · obtain ⟨list, listed⟩ := Functions.child?_started start
    have results : started.hasChild "return_type" = tree.hasChild "return_type" := by
      rw [Tree.hasChild, Tree.hasChild,
        Functions.child?_started_other start (by decide) (by decide)]
    have less := extent_parenthesized bare
    rw [extent_function kind, extent_function (by rwa [same, kind_withChildren]), results, unlisted,
      hasChild_of_child? listed, same, split]
    simp only [children_withChildren, extents_append, extents_cons, if_true, Bool.false_eq_true,
      if_false]
    omega

theorem hasChild_hint {children : List Node}
    (member : TypeHint.unknown.toNode (some "type") ∈ children) :
    (tree.withChildren children).hasChild "type" = true :=
  (hasChild_iff _ _).mpr ⟨_, member, rfl⟩

theorem extent_annotateParameter {child pattern : Node}
    (kind : child.kind ∈ Functions.parameterKinds)
    (present : child.child? "pattern" = some pattern) (free : child.hasChild "type" = false) :
    extent (Functions.annotateParameter child) ≤ extent child := by
  obtain ⟨left, middle, rest, split, typed, _⟩ := Functions.typed_split present
  have hint := extent_hint .unknown (some "type")
  rw [extent_parameter kind, free, typed, extent_parameter (by rwa [kind_withChildren]),
    hasChild_hint (by simp), split]
  simp only [children_withChildren, extents_append, extents_cons, Bool.false_eq_true, if_false,
    if_true]
  omega

theorem extent_lowered {child pattern : Node} (kind : child.kind ∈ Functions.parameterKinds)
    (present : child.child? "pattern" = some pattern) (free : child.hasChild "type" = false)
    (name : String) :
    extent (Functions.annotateParameter (Functions.renamed name child)) + (extent pattern + 15) ≤
      extent child ∧ 3 ≤ extent (Functions.annotateParameter (Functions.renamed name child)) := by
  obtain ⟨left, middle, rest, split, _, typed⟩ := Functions.typed_split present
  have hint := extent_hint .unknown (some "type")
  rw [extent_parameter kind, free, typed name, extent_parameter (by rwa [kind_withChildren]),
    hasChild_hint (by simp), split]
  simp only [children_withChildren, extents_append, extents_cons, Bool.false_eq_true, if_false,
    if_true, extent_leaf (show "identifier" ∉ growingKinds by decide)]
  omega

theorem spares_of_annotates {canLower : Bool} {before after bindings : List Node}
    (annotates : Functions.Annotates canLower before after bindings) :
    ∃ spare, Spares before after spare ∧ extents bindings + 6 * bindings.length ≤ spare := by
  induction annotates with
  | nil => exact ⟨0, .nil, Nat.le_refl 0⟩
  | same settled later ih =>
      obtain ⟨spare, spares, enough⟩ := ih
      refine ⟨0 + spare, .cons rfl (Nat.le_refl _) (.inl rfl) spares, by omega⟩
  | typed change later ih =>
      obtain ⟨spare, spares, enough⟩ := ih
      obtain ⟨kind, pattern, present, free, _⟩ := Functions.changeOf_annotate change
      have less := extent_annotateParameter kind present free
      refine ⟨0 + spare, .cons rfl less (.inl rfl) spares, by omega⟩
  | @lowered child pattern _ _ _ number change later ih =>
      obtain ⟨spare, spares, enough⟩ := ih
      obtain ⟨kind, present, free, _⟩ := Functions.changeOf_lower change
      obtain ⟨less, large⟩ := extent_lowered kind present free (FreshNames.name number)
      have bound := extent_statement pattern (FreshNames.name number)
      refine ⟨extent pattern + 15 + spare, .cons rfl less (.inr large) spares, ?_⟩
      simp only [extents_cons, List.length_cons]
      omega

theorem extent_bound {bindings : List Node} {bound : Node} (kind : tree.kind ∈ Functions.kinds)
    (binds : Functions.withBindings? bindings tree = some bound) :
    extent bound ≤ extent tree + (extents bindings + 6 * bindings.length) := by
  have slots (slot : String) (other : slot ≠ "body") : bound.hasChild slot = tree.hasChild slot := by
    rw [Tree.hasChild, Functions.child?_bound binds other, Tree.hasChild]
  rcases Functions.withBindings?_cases binds with
    ⟨_, rfl⟩ | ⟨nonempty, body, block, left, right, _, split, _, prepended, rfl⟩
  · omega
  · have some := List.length_pos_of_ne_nil nonempty
    have own := extent_asBlock body
    have longer := extent_prepended (Functions.kind_asBlock body) prepended
    rw [extent_function kind, extent_function (by rwa [kind_withChildren]), slots _ (by decide),
      slots _ (by decide), split]
    simp only [children_withChildren, extents_append, extents_cons]
    omega

theorem extent_resulted {bound result list : Node} (kind : bound.kind ∈ Functions.kinds)
    (present : bound.child? "parameters" = some list) (results : Functions.Resulted bound result) :
    extent result ≤ extent bound := by
  cases results with
  | kept | barred => exact Nat.le_refl _
  | added absent free =>
      have result : (bound.withChildren (Children.insertAfter "parameters"
          (TypeHint.unknown.toNode (some "return_type")) bound.children)).hasChild "return_type" =
          true :=
        (hasChild_iff _ _).mpr ⟨_, self_mem_insertAfter _ present, rfl⟩
      have listed : (bound.withChildren (Children.insertAfter "parameters"
          (TypeHint.unknown.toNode (some "return_type")) bound.children)).hasChild "parameters" =
          bound.hasChild "parameters" := by
        rw [Tree.hasChild, child?_insertAfter bound (by decide), Tree.hasChild]
      have hint := extent_hint .unknown (some "return_type")
      have less := extents_insertAfter "parameters"
        (TypeHint.unknown.toNode (some "return_type")) bound.children
      rw [extent_function kind, extent_function (by rwa [kind_withChildren]), result, absent, listed]
      simp only [children_withChildren, if_true, Bool.false_eq_true, if_false]
      omega

theorem extent_signed {started list bound result : Node} {canLower : Bool}
    {children bindings : List Node} (kind : tree.kind ∈ Functions.kinds)
    (start : Functions.withParameters? tree = some started)
    (present : started.child? "parameters" = some list)
    (annotates : Functions.Annotates canLower list.children children bindings)
    (binds : Functions.withBindings? bindings (Functions.listed started list children) = some bound)
    (results : Functions.Resulted bound result) : extent result ≤ extent tree := by
  have started' : started.kind ∈ Functions.kinds := by
    rwa [Tree.kind, Functions.label_started start]
  obtain ⟨spare, spares, enough⟩ := spares_of_annotates annotates
  have shorter := @extent_spares list (list.withChildren children) spare rfl spares
  obtain ⟨left, right, split, _, equal⟩ := Functions.listed_split present children
  have listed : extent (Functions.listed started list children) + spare ≤ extent started := by
    have found := hasChild_of_child? (Functions.child?_list present children)
    have result : (Functions.listed started list children).hasChild "return_type" =
        started.hasChild "return_type" := by
      rw [Tree.hasChild, Functions.child?_listed present children (by decide), Tree.hasChild]
    rw [extent_function started', extent_function (by exact started'), result, found,
      hasChild_of_child? present, equal, split]
    simp only [children_withChildren, extents_append, extents_cons]
    omega
  have list' : bound.child? "parameters" = some (list.withChildren children) := by
    rw [Functions.child?_bound binds (by decide), Functions.child?_list present]
  have kind' : bound.kind ∈ Functions.kinds := by
    rwa [Tree.kind, Functions.label_bound start binds]
  have first := extent_started kind start
  have second := @extent_bound (Functions.listed started list children) _ _ started' binds
  have third := extent_resulted kind' list' results
  omega

theorem extent_shortened {source : Node} {lead : String} {quote : Char} {specifier : String}
    (kind : tree.kind = "import_statement" ∨ tree.kind = "export_statement")
    (present : tree.child? "source" = some source) (string : source.kind = "string") :
    extent (tree.withChildren (Children.replace "source"
      (source.withChildren (Imports.quotedTokens lead quote specifier)) tree.children)) ≤
        extent tree := by
  have mark : quote.toString ∉ growingKinds := by
    have longer : ∀ kind ∈ growingKinds, kind.length ≠ 1 := by decide
    exact fun member => longer _ member String.length_singleton
  have tokens : extents (Imports.quotedTokens lead quote specifier) = 3 := by
    simp only [Imports.quotedTokens, extents_cons, extents_nil, extent_mark mark,
      extent_leaf (show "string_fragment" ∉ growingKinds by decide)]
  have plain : tree.kind ∉ growingKinds := by
    rcases kind with kind | kind <;> rw [kind] <;> decide
  obtain ⟨left, right, split, before, inside⟩ := (child?_eq_some_iff _ _ _).mp present
  rw [Children.replace, split, Children.modify_split _ before inside, extent_plain plain,
    extent_plain (by rwa [kind_withChildren]), split]
  simp only [children_withChildren, extents_append, extents_cons]
  rw [extent_string string, extent_string (by rwa [kind_withChildren]), children_withChildren, tokens]
  omega

theorem extent_of_effect {above : List Label} {handled : Node} (effect : Effect above tree handled) :
    extent handled ≤ extent tree := by
  cases effect with
  | untouched | declared | iterated | unlisted | imported => exact Nat.le_refl _
  | annotated kind name free _ => exact extent_annotate kind name free
  | sanitized kind _ => exact extent_sanitize kind
  | signed kind start list annotates binds results =>
      exact extent_signed kind start list annotates binds results
  | shortened kind quote quoted present string _ _ => exact extent_shortened kind present string

theorem fault_of_handler (rule : Rule) (number : Nat) (above : List Label) (tree : Node)
    (session : Session) :
    ((rule.handler number).handle above tree session).fault ≠ some .outOfSteps := by
  cases rule with
  | declarations =>
      simp only [handler, Declarations.handler, Declarations.handle]
      repeat' split
      all_goals simp
  | loopHeaders =>
      simp only [handler, LoopHeaders.handler, LoopHeaders.handle]
      repeat' split
      all_goals simp
  | functions =>
      simp only [handler, Functions.handler, Functions.handle]
      repeat' split
      all_goals simp
  | imports =>
      simp only [handler, Imports.handler, Imports.handle]
      repeat' split
      all_goals simp
  | markup =>
      simp only [handler, Markup.handler, Markup.handle]
      split <;> simp

theorem bounded_table (rules : List Rule) : Bounded (table rules) extent where
  below label children := by
    have own := extent_eq (.node label children)
    simp only [children_node, extents] at own
    omega
  keeps handler member above tree session kind complete := by
    obtain ⟨rule, number, rfl⟩ := mem_tableFrom member
    generalize same : (rule.handler number).handle above tree session = outcome at complete ⊢
    obtain ⟨handled, after, fault⟩ := outcome
    subst complete
    have effect := effect_of_handler kind same
    exact ⟨congrArg Label.kind effect.label, extent_of_effect effect⟩
  stops handler member above tree session := by
    obtain ⟨rule, number, rfl⟩ := mem_tableFrom member
    exact fault_of_handler rule number above tree session

theorem walk_never_out_of_steps (rules : List Rule) (tree : Node) (session : Session) :
    (walk rules tree session).fault ≠ some .outOfSteps := by
  refine (bounded_table rules).walk_in_budget ?_ session
  have bound := extent_le tree
  rw [stepBudget, size_rows]
  omega

end Rule

end ScriptTyping
