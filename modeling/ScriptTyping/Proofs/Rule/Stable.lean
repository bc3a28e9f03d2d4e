import ScriptTyping.Proofs.Rule.Converts

set_option autoImplicit false

namespace ScriptTyping

open ScriptTyping.Tree

theorem Functions.mem_annotates {canLower : Bool} {before after bindings : List Node}
    (annotates : Annotates canLower before after bindings) {child : Node} (member : child ∈ after) :
    child ∈ before ∨ child.kind ∈ parameterKinds := by
  induction annotates with
  | nil => cases member
  | same settled later ih =>
      rcases List.mem_cons.mp member with rfl | below
      · exact .inl (by simp)
      · exact (ih below).imp_left fun kept => by simp [kept]
  | typed change later ih =>
      rcases List.mem_cons.mp member with rfl | below
      · exact .inr (changeOf_annotate change).1
      · exact (ih below).imp_left fun kept => by simp [kept]
  | lowered number change later ih =>
      rcases List.mem_cons.mp member with rfl | below
      · exact .inr (changeOf_lower change).1
      · exact (ih below).imp_left fun kept => by simp [kept]

namespace Rule

-- The kinds of the nodes that the rules build or give other children, apart from declarators and the
-- nodes that they work on.
def builtKinds : List String :=
  ["type_annotation", "lexical_declaration", "variable_declaration", "statement_block",
   "return_statement", "formal_parameters", "string"] ++ Functions.parameterKinds

structure Stable (holds : Node → Prop) : Prop where
  child : ∀ {tree child : Node}, holds tree → child ∈ tree.children → holds child
  childless : ∀ label, holds (.node label [])
  built : ∀ {tree : Node}, tree.kind ∈ builtKinds → (∀ child ∈ tree.children, holds child) →
    holds tree
  relabeled : ∀ {tree : Node} {label : Label}, label.kind = tree.kind → holds tree →
    holds (.node label tree.children)
  relead : ∀ {tree : Node} (lead : String), holds tree → holds (tree.withTrivia lead)
  bare : ∀ {tree : Node}, tree.kind = "variable_declarator" → tree.hasChild "type" = false →
    (∀ child ∈ tree.children, holds child) → holds tree
  stripped : ∀ {tree : Node}, holds tree → holds (LoopHeaders.stripDeclarator tree)
  annotated : ∀ {canLower : Bool} {list : Node} {children bindings : List Node},
    Functions.Annotates canLower list.children children bindings → holds list →
    (∀ child ∈ children, holds child) → holds (list.withChildren children)

namespace Stable

variable {holds : Node → Prop} (stable : Stable holds)

include stable

theorem withSlot (slot : Option String) {tree : Node} (here : holds tree) :
    holds (tree.withSlot slot) :=
  stable.relabeled rfl here

theorem hint (hint : TypeHint) (slot : Option String) : holds (hint.toNode slot) := by
  refine stable.built (show "type_annotation" ∈ builtKinds by decide) fun child member => ?_
  rcases (by simpa [TypeHint.toNode, branch] using member :
    child = mark ":" "" ∨ child = leaf hint.typeKind hint.typeText " " none) with rfl | rfl <;>
    exact stable.childless _

theorem statement {pattern : Node} (name : String) (here : holds pattern) :
    holds (Bindings.statement pattern name) := by
  refine stable.built (show "lexical_declaration" ∈ builtKinds by decide) fun child member => ?_
  rcases (by simpa [Bindings.statement, branch] using member) with rfl | rfl | rfl
  · exact stable.childless _
  · refine stable.bare rfl ?_ fun child member => ?_
    · have named : ((pattern.withSlot (some "name")).withTrivia " ").label.slot = some "name" :=
        slot_withTrivia _ _
      simp [hasChild, child?, Tree.slot, mark, leaf, named]
    · rcases (by simpa using member) with rfl | rfl | rfl
      · exact stable.relead " " (stable.withSlot _ here)
      · exact stable.childless _
      · exact stable.childless _
  · exact stable.childless _

theorem returning {body : Node} (here : holds body) : holds (Bindings.returning body) := by
  refine stable.built (show "statement_block" ∈ builtKinds by decide) fun child member => ?_
  rcases (by simpa [Bindings.returning, branch] using member) with rfl | rfl | rfl
  · exact stable.childless _
  · refine stable.built (show "return_statement" ∈ builtKinds by decide) fun child member => ?_
    rcases (by simpa using member) with rfl | rfl | rfl
    · exact stable.childless _
    · exact stable.relead " " (stable.withSlot _ here)
    · exact stable.childless _
  · exact stable.childless _

theorem asBlock {body : Node} (here : holds body) : holds (Bindings.asBlock body) := by
  unfold Bindings.asBlock
  split
  · exact here
  · exact stable.returning here

theorem setOff {following : List Node} (each : ∀ child ∈ following, holds child) :
    ∀ child ∈ Bindings.setOff following, holds child := by
  cases following with
  | nil => exact each
  | cons first rest =>
      rw [Bindings.setOff]
      split
      · intro child member
        rcases List.mem_cons.mp member with rfl | later
        · exact stable.relabeled rfl (each first (by simp))
        · exact each child (by simp [later])
      · exact each

theorem prepended {body block : Node} {statements : List Node} (here : holds body)
    (each : ∀ statement ∈ statements, holds statement)
    (prepended : Bindings.prepend? (Bindings.asBlock body) statements = some block) :
    holds block := by
  obtain ⟨left, brace, rest, split, _, _, rfl⟩ := Bindings.prepend?_cases prepended
  have own : ∀ child ∈ left ++ brace :: rest, holds child := by
    rw [← split]
    exact fun child member => stable.child (stable.asBlock here) member
  refine stable.built (by rw [kind_withChildren, Functions.kind_asBlock]; decide)
    fun child member => ?_
  simp only [children_withChildren, List.mem_append, List.mem_cons, List.mem_map] at member
  rcases member with early | rfl | ⟨statement, present, rfl⟩ | late
  · exact own child (by simp [early])
  · exact own child (by simp)
  · exact stable.relead _ (each statement present)
  · exact stable.setOff (fun other member => own other (by simp [member])) child late

theorem parenthesized {bare : Node} (here : holds bare) : holds (Functions.parenthesized bare) := by
  refine stable.built (show "formal_parameters" ∈ builtKinds by decide) fun child member => ?_
  rcases (by simpa [Functions.parenthesized, branch] using member) with rfl | rfl | rfl
  · exact stable.childless _
  · refine stable.built (show "required_parameter" ∈ builtKinds by decide) fun child member => ?_
    rcases (by simpa using member) with rfl
    exact stable.withSlot _ (stable.relead "" here)
  · exact stable.childless _

theorem started {tree started : Node} (start : Functions.withParameters? tree = some started)
    (here : holds tree) : ∀ child ∈ started.children, holds child := by
  rcases Functions.withParameters?_cases start with
    ⟨_, rfl⟩ | ⟨_, bare, left, right, _, split, rfl⟩
  · exact fun child member => stable.child here member
  · intro child member
    rcases (by simpa using member : child ∈ left ∨ child = Functions.parenthesized bare ∨
      child ∈ right) with early | rfl | late
    · exact stable.child here (by simp [split, early])
    · exact stable.parenthesized (stable.child here (by simp [split]))
    · exact stable.child here (by simp [split, late])

theorem parameter {child : Node} (kind : child.kind ∈ Functions.parameterKinds)
    (each : ∀ part ∈ child.children, holds part) : holds child :=
  stable.built (List.mem_append_right _ kind) each

theorem annotates {canLower : Bool} {before after bindings : List Node}
    (annotates : Functions.Annotates canLower before after bindings)
    (each : ∀ child ∈ before, holds child) :
    (∀ child ∈ after, holds child) ∧ ∀ binding ∈ bindings, holds binding := by
  induction annotates with
  | nil => simp
  | same settled later ih =>
      obtain ⟨others, bound⟩ := ih fun child member => each child (by simp [member])
      refine ⟨fun child member => ?_, bound⟩
      rcases List.mem_cons.mp member with rfl | below
      · exact each child (by simp)
      · exact others child below
  | @typed child rest after bindings change later ih =>
      obtain ⟨others, bound⟩ := ih fun child member => each child (by simp [member])
      refine ⟨fun other member => ?_, bound⟩
      rcases List.mem_cons.mp member with rfl | below
      · refine stable.parameter (Functions.changeOf_annotate change).1 fun part present => ?_
        rcases Children.mem_insertAfterMarked present with rfl | kept
        · exact stable.hint _ _
        · exact stable.child (each child (by simp)) kept
      · exact others other below
  | @lowered child pattern rest after bindings number change later ih =>
      obtain ⟨others, bound⟩ := ih fun child member => each child (by simp [member])
      obtain ⟨kind, shown, _⟩ := Functions.changeOf_lower change
      have own := each child (by simp)
      refine ⟨fun other member => ?_, fun binding member => ?_⟩
      · rcases List.mem_cons.mp member with rfl | below
        · refine stable.parameter kind fun part present => ?_
          rcases Children.mem_insertAfterMarked present with rfl | kept
          · exact stable.hint _ _
          · rcases Children.mem_modify kept with same | ⟨_, _, _, rfl⟩
            · exact stable.child own same
            · exact stable.childless _
        · exact others other below
      · rcases List.mem_cons.mp member with rfl | below
        · exact stable.statement _ (stable.child own (mem_of_child? shown))
        · exact bound binding below

theorem signed {tree started list bound result : Node} {canLower : Bool}
    {children bindings : List Node} (start : Functions.withParameters? tree = some started)
    (present : started.child? "parameters" = some list)
    (annotates : Functions.Annotates canLower list.children children bindings)
    (binds : Functions.withBindings? bindings (Functions.listed started list children) = some bound)
    (results : Functions.Resulted bound result) (here : holds tree) :
    ∀ child ∈ result.children, holds child := by
  have begun := stable.started start here
  have own := begun list (mem_of_child? present)
  obtain ⟨others, statements⟩ :=
    stable.annotates annotates fun child member => stable.child own member
  intro child member
  rcases Functions.mem_signed start present binds results member with
    kept | rfl | ⟨_, body, shown, prepended⟩ | rfl
  · exact begun child kept
  · exact stable.annotated annotates own others
  · exact stable.prepended (stable.child here (mem_of_child? shown)) statements prepended
  · exact stable.hint _ _

theorem strip {child : Node} (here : holds child) :
    ∀ kept ∈ LoopHeaders.strip child, holds kept := by
  intro kept member
  unfold LoopHeaders.strip at member
  split at member
  next => cases member
  next =>
    split at member
    next declaration =>
      cases member
      refine stable.built ?_ fun part present => ?_
      · rw [kind_withChildren]
        rcases LoopHeaders.kind_of_isDeclaration declaration with kind | kind <;> rw [kind] <;> decide
      · obtain ⟨declarator, given, rfl⟩ := List.mem_map.mp present
        exact stable.stripped (stable.child here given)
    next =>
      cases member
      exact here

theorem of_effect {above : List Label} {tree handled : Node} (effect : Effect above tree handled)
    (here : holds tree) : ∀ child ∈ handled.children, holds child := by
  intro child member
  cases effect with
  | untouched | declared | iterated | unlisted | imported => exact stable.child here member
  | annotated =>
      rcases Children.mem_insertAfterMarked member with rfl | kept
      · exact stable.hint _ _
      · exact stable.child here kept
  | sanitized =>
      rcases List.mem_append.mp member with header | later
      · obtain ⟨old, present, strip⟩ := List.mem_filterMap.mp header
        have before := (List.takeWhile_sublist _).subset present
        exact stable.strip (stable.child here before) child strip
      · exact stable.child here ((List.dropWhile_sublist _).subset later)
  | signed kind start list annotates binds results =>
      exact stable.signed start list annotates binds results here child member
  | shortened kind quote quoted present string =>
      rcases Children.mem_modify member with kept | ⟨_, _, _, rfl⟩
      · exact stable.child here kept
      · refine stable.built (by rw [kind_withChildren, string]; decide) fun token below => ?_
        rcases (by simpa [Imports.quotedTokens] using below) with rfl | rfl | rfl <;>
          exact stable.childless _

end Stable

end Rule

end ScriptTyping
