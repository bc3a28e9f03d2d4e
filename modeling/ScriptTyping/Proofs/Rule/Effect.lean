import ScriptTyping.Proofs.Rule.Signature
import ScriptTyping.Rule.Basic

set_option autoImplicit false

namespace ScriptTyping

def Imports.Kept (tree : Node) : Prop :=
  ∀ source, tree.child? "source" = some source → source.kind = "string" →
    ∃ quote quoted, source.sourceText.toList = quote :: quoted ∧
      normalizeSpecifier (String.ofList quoted.dropLast) = String.ofList quoted.dropLast

theorem LoopHeaders.kind_of_isDeclaration {tree : Node} (declares : isDeclaration tree = true) :
    tree.kind = "lexical_declaration" ∨ tree.kind = "variable_declaration" := by
  simpa [isDeclaration] using declares

namespace Rule

-- The kinds of nodes whose subtree a rule may change, declarators apart.
def siteKinds : List String :=
  Declarations.iterationKind :: Functions.kinds ++ ["import_statement", "export_statement"]

theorem site_of_iteration {tree : Node} (kind : tree.kind = Declarations.iterationKind) :
    tree.kind ∈ siteKinds := by
  simp [siteKinds, kind]

theorem site_of_function {tree : Node} (kind : tree.kind ∈ Functions.kinds) :
    tree.kind ∈ siteKinds := by
  simp [siteKinds, kind]

theorem site_of_import {tree : Node}
    (kind : tree.kind = "import_statement" ∨ tree.kind = "export_statement") :
    tree.kind ∈ siteKinds := by
  rcases kind with kind | kind <;> simp [siteKinds, kind]

theorem other_of_cases {tree : Node} (declarator : tree.kind ≠ "variable_declarator")
    (iteration : tree.kind ≠ Declarations.iterationKind) (function : tree.kind ∉ Functions.kinds)
    (imported : ¬ (tree.kind = "import_statement" ∨ tree.kind = "export_statement")) :
    tree.kind ∉ "variable_declarator" :: siteKinds := by
  simp only [siteKinds, List.mem_cons, List.mem_append, List.not_mem_nil, or_false]
  tauto

inductive Effect (above : List Label) (tree : Node) : Node → Prop where
  | untouched (kind : tree.kind ∉ "variable_declarator" :: siteKinds) : Effect above tree tree
  | declared (kind : tree.kind = "variable_declarator")
      (done : tree.hasChild "name" = true →
        tree.hasChild "type" = true ∨ Declarations.inLoopHeader above = true) :
      Effect above tree tree
  | annotated (kind : tree.kind = "variable_declarator") (name : tree.hasChild "name" = true)
      (free : tree.hasChild "type" = false) (outside : Declarations.inLoopHeader above = false) :
      Effect above tree (Declarations.annotate tree)
  | iterated (kind : tree.kind = Declarations.iterationKind)
      (plain : LoopHeaders.declares tree = false) : Effect above tree tree
  | sanitized (kind : tree.kind = Declarations.iterationKind)
      (declares : LoopHeaders.declares tree = true) : Effect above tree (LoopHeaders.sanitize tree)
  | unlisted (kind : tree.kind ∈ Functions.kinds) (none : Functions.withParameters? tree = none) :
      Effect above tree tree
  | signed (kind : tree.kind ∈ Functions.kinds) {started parameters bound result : Node}
      {children bindings : List Node} (start : Functions.withParameters? tree = some started)
      (list : started.child? "parameters" = some parameters)
      (annotates : Functions.Annotates (started.hasChild "body") parameters.children children
        bindings)
      (binds : Functions.withBindings? bindings (Functions.listed started parameters children) =
        some bound)
      (results : Functions.Resulted bound result) : Effect above tree result
  | imported (kind : tree.kind = "import_statement" ∨ tree.kind = "export_statement")
      (kept : Imports.Kept tree) : Effect above tree tree
  | shortened (kind : tree.kind = "import_statement" ∨ tree.kind = "export_statement")
      {source : Node} (quote : Char) (quoted : List Char)
      (present : tree.child? "source" = some source) (string : source.kind = "string")
      (text : source.sourceText.toList = quote :: quoted)
      (shorter : normalizeSpecifier (String.ofList quoted.dropLast) ≠
        String.ofList quoted.dropLast) :
      Effect above tree (tree.withChildren (Children.replace "source"
        (source.withChildren (Imports.quotedTokens source.trivia quote
          (normalizeSpecifier (String.ofList quoted.dropLast)))) tree.children))

theorem other_of_markup {tree : Node} (kind : tree.kind ∈ Markup.kinds) :
    tree.kind ∉ "variable_declarator" :: siteKinds := by
  simp only [Markup.kinds, List.mem_cons, List.not_mem_nil, or_false] at kind
  rcases kind with kind | kind | kind <;> rw [kind] <;> decide

theorem applyHandlers_one (above : List Label) (handler : Handler Session) (tree : Node)
    (session : Session) :
    applyHandlers above [handler] tree session = handler.handle above tree session := by
  simp only [applyHandlers]
  generalize handler.handle above tree session = outcome
  obtain ⟨tree, session, fault⟩ := outcome
  cases fault <;> rfl

theorem handlersFor_declarator :
    (table all).handlersFor "variable_declarator" = [Declarations.handler] := by
  rfl

theorem handlersFor_iteration :
    (table all).handlersFor Declarations.iterationKind = [LoopHeaders.handler] := by
  rfl

theorem handlersFor_function {kind : String} (member : kind ∈ Functions.kinds) :
    (table all).handlersFor kind = [Functions.handler] := by
  simp only [Functions.kinds, List.mem_cons, List.not_mem_nil, or_false] at member
  rcases member with rfl | rfl | rfl | rfl | rfl | rfl | rfl <;> rfl

theorem handlersFor_import {kind : String}
    (member : kind = "import_statement" ∨ kind = "export_statement") :
    (table all).handlersFor kind = [Imports.handler] := by
  rcases member with rfl | rfl <;> rfl

theorem handlersFor_other {kind : String} (other : kind ∉ "variable_declarator" :: siteKinds) :
    (table all).handlersFor kind = [] ∨ (table all).handlersFor kind = [Markup.handler 4] := by
  simp only [siteKinds, List.mem_cons, List.mem_append, List.not_mem_nil, or_false, not_or] at other
  obtain ⟨declarator, ⟨iteration, function⟩, imported, exported⟩ := other
  by_cases markup : kind ∈ Markup.kinds <;>
    simp [HandlerTable.handlersFor, table, all, tableFrom, Rule.handler, Declarations.handler,
      LoopHeaders.handler, Functions.handler, Imports.handler, Markup.handler, declarator,
      iteration, function, imported, exported, markup]

theorem mem_tableFrom {rules : List Rule} {number : Nat} {handler : Handler Session}
    (member : handler ∈ tableFrom number rules) :
    ∃ (rule : Rule) (place : Nat), handler = rule.handler place := by
  induction rules generalizing number with
  | nil => cases member
  | cons rule rest ih =>
      rcases List.mem_cons.mp member with rfl | later
      · exact ⟨rule, number, rfl⟩
      · exact ih later

theorem effect_of_declarations {above : List Label} {tree handled : Node} {session after : Session}
    (kind : tree.kind = "variable_declarator")
    (complete : Declarations.handle above tree session = ⟨handled, after, none⟩) :
    Effect above tree handled := by
  unfold Declarations.handle at complete
  split at complete
  next none =>
    cases complete
    exact .declared kind (by simp [Tree.hasChild, none])
  next name some =>
    have named := Tree.hasChild_of_child? some
    split at complete
    next typed =>
      cases complete
      exact .declared kind fun _ => .inl typed
    next untyped =>
      split at complete
      next header =>
        cases complete
        exact .declared kind fun _ => .inr header
      next outside =>
        cases complete
        exact .annotated kind named (by simpa using untyped) (by simpa using outside)

theorem effect_of_loopHeaders {above : List Label} {tree handled : Node} {session after : Session}
    (kind : tree.kind = Declarations.iterationKind)
    (complete : LoopHeaders.handle above tree session = ⟨handled, after, none⟩) :
    Effect above tree handled := by
  unfold LoopHeaders.handle at complete
  cases declares : LoopHeaders.declares tree with
  | false =>
      simp only [declares, Bool.not_false, if_true] at complete
      cases complete
      exact .iterated kind declares
  | true =>
      simp only [declares, Bool.not_true, Bool.false_eq_true, if_false] at complete
      split at complete <;> cases complete <;> exact .sanitized kind declares

theorem effect_of_functions {above : List Label} {tree handled : Node} {session after : Session}
    (kind : tree.kind ∈ Functions.kinds)
    (complete : Functions.handle above tree session = ⟨handled, after, none⟩) :
    Effect above tree handled := by
  unfold Functions.handle at complete
  split at complete
  next none =>
    cases complete
    exact .unlisted kind none
  next started start =>
    split at complete
    next none =>
      obtain ⟨parameters, list⟩ := Functions.child?_started start
      simp [none] at list
    next parameters list =>
      have annotates := Functions.annotates_annotateParameters
        (Functions.takenNames started parameters) (started.hasChild "body") parameters.children 0
        session
      dsimp only at complete
      split at complete
      next => cases complete
      next bound binds =>
        cases complete
        exact .signed kind start list annotates binds (Functions.resulted_annotateResult _ _ _)

theorem effect_of_imports {above : List Label} {tree handled : Node} {session after : Session}
    (kind : tree.kind = "import_statement" ∨ tree.kind = "export_statement")
    (complete : Imports.handle above tree session = ⟨handled, after, none⟩) :
    Effect above tree handled := by
  unfold Imports.handle at complete
  split at complete
  next none =>
    cases complete
    exact .imported kind fun source present => by simp [none] at present
  next source present =>
    split at complete
    next other =>
      cases complete
      refine .imported kind fun found same string => ?_
      rw [present] at same
      cases same
      simp [string] at other
    next string =>
      simp only [bne_iff_ne, ne_eq, Decidable.not_not] at string
      dsimp only at complete
      split at complete
      next => cases complete
      next quote quoted text =>
        split at complete
        next kept =>
          cases complete
          refine .imported kind fun found same _ => ?_
          rw [present] at same
          cases same
          exact ⟨quote, quoted, text, kept⟩
        next shorter =>
          cases complete
          exact .shortened kind quote quoted present string text shorter

theorem effect_of_markup {above : List Label} {tree handled : Node} {session after : Session}
    {detector : Nat} (other : tree.kind ∉ "variable_declarator" :: siteKinds)
    (complete : Markup.handle detector above tree session = ⟨handled, after, none⟩) :
    Effect above tree handled := by
  unfold Markup.handle at complete
  split at complete <;> cases complete <;> exact .untouched other

theorem effect_of_handler {rule : Rule} {number : Nat} {above : List Label} {tree handled : Node}
    {session after : Session} (kind : tree.kind ∈ (rule.handler number).kinds)
    (complete : (rule.handler number).handle above tree session = ⟨handled, after, none⟩) :
    Effect above tree handled := by
  cases rule with
  | declarations => exact effect_of_declarations (List.mem_singleton.mp kind) complete
  | loopHeaders => exact effect_of_loopHeaders (List.mem_singleton.mp kind) complete
  | functions => exact effect_of_functions kind complete
  | imports => exact effect_of_imports (by simpa [handler, Imports.handler] using kind) complete
  | markup => exact effect_of_markup (other_of_markup kind) complete

theorem effect_of_applyHandlers {above : List Label} {tree handled : Node} {session after : Session}
    (complete : applyHandlers above ((table all).handlersFor tree.kind) tree session =
      ⟨handled, after, none⟩) : Effect above tree handled := by
  by_cases declarator : tree.kind = "variable_declarator"
  · rw [declarator, handlersFor_declarator, applyHandlers_one] at complete
    exact effect_of_declarations declarator complete
  by_cases iteration : tree.kind = Declarations.iterationKind
  · rw [iteration, handlersFor_iteration, applyHandlers_one] at complete
    exact effect_of_loopHeaders iteration complete
  by_cases function : tree.kind ∈ Functions.kinds
  · rw [handlersFor_function function, applyHandlers_one] at complete
    exact effect_of_functions function complete
  by_cases imported : tree.kind = "import_statement" ∨ tree.kind = "export_statement"
  · rw [handlersFor_import imported, applyHandlers_one] at complete
    exact effect_of_imports imported complete
  have other := other_of_cases declarator iteration function imported
  rcases handlersFor_other other with none | markup
  · rw [none] at complete
    cases complete
    exact .untouched other
  · rw [markup, applyHandlers_one] at complete
    exact effect_of_markup other complete

end Rule

end ScriptTyping
