import ScriptTyping.Proofs.Rule.Effect

set_option autoImplicit false

namespace ScriptTyping

open ScriptTyping.Tree

namespace Trace

def count (type : String) (trace : Trace) : Nat :=
  trace.events.toList.countP fun event => event.entry.type == type

variable {type : String} {trace : Trace}

@[simp]
theorem count_empty : count type empty = 0 := rfl

theorem count_add (parent : Option Nat) (entry : Entry) :
    (trace.add parent entry).count type =
      trace.count type + if entry.type = type then 1 else 0 := by
  simp [count]

theorem count_record (entry : Entry) :
    (trace.record entry).count type = trace.count type + if entry.type = type then 1 else 0 :=
  count_add _ entry

theorem count_enter (name detail : String) (other : type ≠ "phase_start") :
    (trace.enter name detail).count type = trace.count type := by
  have same : (trace.enter name detail).count type =
      (trace.record (.phaseStart name detail)).count type := rfl
  rw [same, count_record, if_neg fun equal => other equal.symm, Nat.add_zero]

theorem count_leave (start : Nat) (other : type ≠ "phase_end") :
    (trace.leave start).count type = trace.count type := by
  have same : (trace.leave start).count type = Trace.count type
      (Trace.add { trace with opened := trace.opened.tail } (some start)
        (.phaseEnd (trace.phaseName start))) := rfl
  rw [same, count_add, if_neg fun equal => other equal.symm]
  rfl

end Trace

structure Session.Gains (before after : Session) (edits specifiers : Nat) : Prop where
  edits : after.trace.count "edit" = before.trace.count "edit" + edits
  specifiers : after.trace.count "specifier" = before.trace.count "specifier" + specifiers

namespace Session.Gains

variable {before middle after : Session} {edits specifiers moreEdits moreSpecifiers : Nat}

theorem refl (session : Session) : Gains session session 0 0 := ⟨rfl, rfl⟩

theorem trans (first : Gains before middle edits specifiers)
    (second : Gains middle after moreEdits moreSpecifiers) :
    Gains before after (edits + moreEdits) (specifiers + moreSpecifiers) where
  edits := by rw [second.edits, first.edits, Nat.add_assoc]
  specifiers := by rw [second.specifiers, first.specifiers, Nat.add_assoc]

theorem edit (session : Session) (kind before after : String) :
    Gains session (session.record (.edit kind before after)) 1 0 :=
  ⟨Trace.count_record _, Trace.count_record _⟩

theorem specifier (session : Session) (before after : String) :
    Gains session (session.record (.specifier before after)) 0 1 :=
  ⟨Trace.count_record _, Trace.count_record _⟩

theorem decision (session : Session) (marked : List Nat) (subject outcome reason : String) :
    Gains session ({ session with marked }.record (.decision subject outcome reason)) 0 0 :=
  ⟨Trace.count_record _, Trace.count_record _⟩

end Session.Gains

namespace Functions

def changes (canLower : Bool) (child : Node) : Bool :=
  match changeOf canLower child with
  | .pass | .keep => false
  | .annotate | .lower _ => true

def resultEdits (tree : Node) : Nat :=
  if tree.hasChild "return_type" || (resultless? tree).isSome then 0 else 1

theorem gains_annotateParameters (taken : List String) (canLower : Bool) (children : List Node)
    (number : Nat) (session : Session) :
    Session.Gains session (annotateParameters taken canLower children number session).session
      (children.countP (changes canLower)) 0 := by
  induction children generalizing number session with
  | nil => exact .refl session
  | cons child rest ih =>
      rw [annotateParameters, List.countP_cons, Nat.add_comm]
      cases change : changeOf canLower child with
      | pass =>
          have plain : changes canLower child = false := by simp [changes, change]
          simp only [plain, Bool.false_eq_true, if_false, Nat.zero_add]
          exact ih number session
      | keep =>
          have plain : changes canLower child = false := by simp [changes, change]
          simp only [plain, Bool.false_eq_true, if_false]
          exact (Session.Gains.decision session session.marked _ _ _).trans (ih number _)
      | annotate =>
          have changed : changes canLower child = true := by simp [changes, change]
          simp only [changed, if_true]
          exact (Session.Gains.edit session _ _ _).trans (ih number _)
      | lower pattern =>
          have changed : changes canLower child = true := by simp [changes, change]
          simp only [changed, if_true]
          exact (Session.Gains.edit session _ _ _).trans (ih _ _)

theorem gains_annotateResult (tree parameters : Node) (session : Session) :
    Session.Gains session (annotateResult tree parameters session).2 (resultEdits tree) 0 := by
  unfold annotateResult resultEdits
  cases present : tree.hasChild "return_type" with
  | true => exact .refl session
  | false =>
      cases barred : resultless? tree with
      | some name => exact .decision session session.marked _ _ _
      | none => exact .edit session _ _ _

end Functions

namespace Rule

inductive Records (tree : Node) : Node → Nat → Nat → Prop where
  | nothing : Records tree tree 0 0
  | annotated (kind : tree.kind = "variable_declarator") (name : tree.hasChild "name" = true) :
      Records tree (Declarations.annotate tree) 1 0
  | sanitized (kind : tree.kind = Declarations.iterationKind)
      (declares : LoopHeaders.declares tree = true)
      (loses : (LoopHeaders.header tree.children).any LoopHeaders.loses = true) :
      Records tree (LoopHeaders.sanitize tree) 1 0
  | signed (kind : tree.kind ∈ Functions.kinds) {started parameters bound result : Node}
      {children bindings : List Node} (start : Functions.withParameters? tree = some started)
      (list : started.child? "parameters" = some parameters)
      (annotates : Functions.Annotates (started.hasChild "body") parameters.children children
        bindings)
      (binds : Functions.withBindings? bindings (Functions.listed started parameters children) =
        some bound)
      (results : Functions.Resulted bound result) :
      Records tree result
        (parameters.children.countP (Functions.changes (started.hasChild "body")) +
          Functions.resultEdits bound) 0
  | shortened (kind : tree.kind = "import_statement" ∨ tree.kind = "export_statement")
      {source : Node} (lead specifier : String) (quote : Char)
      (present : tree.child? "source" = some source) (string : source.kind = "string") :
      Records tree (tree.withChildren (Children.replace "source"
        (source.withChildren (Imports.quotedTokens lead quote specifier)) tree.children)) 0 1

def Recorded (tree handled : Node) (session after : Session) : Prop :=
  ∃ edits specifiers, Records tree handled edits specifiers ∧
    Session.Gains session after edits specifiers

variable {tree handled : Node} {session after : Session} (above : List Label)

theorem recorded_declarations (kind : tree.kind = "variable_declarator")
    (complete : Declarations.handle above tree session = ⟨handled, after, none⟩) :
    Recorded tree handled session after := by
  unfold Declarations.handle at complete
  split at complete
  next =>
    cases complete
    exact ⟨0, 0, .nothing, .refl session⟩
  next name present =>
    split at complete
    next =>
      cases complete
      exact ⟨0, 0, .nothing, .decision session session.marked _ _ _⟩
    next =>
      split at complete
      next =>
        cases complete
        exact ⟨0, 0, .nothing, .decision session session.marked _ _ _⟩
      next =>
        cases complete
        exact ⟨1, 0, .annotated kind (hasChild_of_child? present), .edit session _ _ _⟩

theorem strip_of_kept {child : Node} (kept : LoopHeaders.loses child = false) :
    LoopHeaders.strip child = some child := by
  simp only [LoopHeaders.loses, Bool.or_eq_false_iff, Bool.and_eq_false_iff] at kept
  obtain ⟨hint, declarators⟩ := kept
  unfold LoopHeaders.strip
  rw [if_neg (by simp [hint])]
  split
  next declares =>
    have bare := declarators.resolve_left (by simp [declares])
    have same : ∀ declarator ∈ child.children, LoopHeaders.stripDeclarator declarator =
        declarator := by
      intro declarator member
      have untyped := (List.any_eq_false.mp bare) declarator member
      unfold LoopHeaders.stripDeclarator
      split
      next isDeclarator =>
        have absent : declarator.hasChild "type" = false := by
          simpa [isDeclarator] using untyped
        rw [Children.erase_absent "type" ((child?_eq_none_iff _ _).mp
          ((hasChild_eq_false_iff _ _).mp absent)), withChildren_children]
      next => rfl
    rw [List.map_congr_left same, List.map_id', withChildren_children]
  next => rfl

theorem sanitize_of_kept
    (kept : (LoopHeaders.header tree.children).any LoopHeaders.loses = false) :
    LoopHeaders.sanitize tree = tree := by
  have each : ∀ child ∈ LoopHeaders.header tree.children, LoopHeaders.strip child = some child :=
    fun child member => strip_of_kept (by simpa using List.any_eq_false.mp kept child member)
  have stripped : (LoopHeaders.header tree.children).filterMap LoopHeaders.strip =
      LoopHeaders.header tree.children := by
    rw [List.filterMap_congr each, List.filterMap_some]
  rw [LoopHeaders.sanitize, stripped, LoopHeaders.header, LoopHeaders.afterHeader,
    List.takeWhile_append_dropWhile, withChildren_children]

theorem recorded_loopHeaders (kind : tree.kind = Declarations.iterationKind)
    (complete : LoopHeaders.handle above tree session = ⟨handled, after, none⟩) :
    Recorded tree handled session after := by
  unfold LoopHeaders.handle at complete
  cases declares : LoopHeaders.declares tree with
  | false =>
      simp only [declares, Bool.not_false, if_true] at complete
      cases complete
      exact ⟨0, 0, .nothing, .refl session⟩
  | true =>
      simp only [declares, Bool.not_true, Bool.false_eq_true, if_false] at complete
      split at complete
      next loses =>
        cases complete
        exact ⟨1, 0, .sanitized kind declares loses, .edit session _ _ _⟩
      next kept =>
        cases complete
        rw [sanitize_of_kept (by simpa using kept)]
        exact ⟨0, 0, .nothing, .refl session⟩

theorem recorded_functions (kind : tree.kind ∈ Functions.kinds)
    (complete : Functions.handle above tree session = ⟨handled, after, none⟩) :
    Recorded tree handled session after := by
  unfold Functions.handle at complete
  split at complete
  next =>
    cases complete
    exact ⟨0, 0, .nothing, .refl session⟩
  next started start =>
    split at complete
    next none =>
      obtain ⟨parameters, list⟩ := Functions.child?_started start
      simp [none] at list
    next parameters list =>
      have annotates := Functions.annotates_annotateParameters
        (Functions.takenNames started parameters) (started.hasChild "body") parameters.children 0
        session
      have gains := Functions.gains_annotateParameters (Functions.takenNames started parameters)
        (started.hasChild "body") parameters.children 0 session
      dsimp only at complete
      split at complete
      next => cases complete
      next bound binds =>
        cases complete
        exact ⟨_, _, .signed kind start list annotates binds
          (Functions.resulted_annotateResult _ _ _), gains.trans
            (Functions.gains_annotateResult _ _ _)⟩

theorem recorded_imports (kind : tree.kind = "import_statement" ∨ tree.kind = "export_statement")
    (complete : Imports.handle above tree session = ⟨handled, after, none⟩) :
    Recorded tree handled session after := by
  unfold Imports.handle at complete
  split at complete
  next =>
    cases complete
    exact ⟨0, 0, .nothing, .refl session⟩
  next source present =>
    split at complete
    next =>
      cases complete
      exact ⟨0, 0, .nothing, .refl session⟩
    next string =>
      simp only [bne_iff_ne, ne_eq, Decidable.not_not] at string
      dsimp only at complete
      split at complete
      next => cases complete
      next quote quoted _ =>
        split at complete
        next =>
          cases complete
          exact ⟨0, 0, .nothing, .decision session session.marked _ _ _⟩
        next =>
          cases complete
          exact ⟨0, 1, .shortened kind _ _ quote present string, .specifier session _ _⟩

theorem recorded_markup {detector : Nat}
    (complete : Markup.handle detector above tree session = ⟨handled, after, none⟩) :
    Recorded tree handled session after := by
  unfold Markup.handle at complete
  split at complete
  next =>
    cases complete
    exact ⟨0, 0, .nothing, .refl session⟩
  next =>
    cases complete
    exact ⟨0, 0, .nothing, .decision session _ _ _ _⟩

theorem recorded_applyHandlers
    (complete : applyHandlers above ((table all).handlersFor tree.kind) tree session =
      ⟨handled, after, none⟩) : Recorded tree handled session after := by
  by_cases declarator : tree.kind = "variable_declarator"
  · rw [declarator, handlersFor_declarator, applyHandlers_one] at complete
    exact recorded_declarations above declarator complete
  by_cases iteration : tree.kind = Declarations.iterationKind
  · rw [iteration, handlersFor_iteration, applyHandlers_one] at complete
    exact recorded_loopHeaders above iteration complete
  by_cases function : tree.kind ∈ Functions.kinds
  · rw [handlersFor_function function, applyHandlers_one] at complete
    exact recorded_functions above function complete
  by_cases imported : tree.kind = "import_statement" ∨ tree.kind = "export_statement"
  · rw [handlersFor_import imported, applyHandlers_one] at complete
    exact recorded_imports above imported complete
  rcases handlersFor_other (other_of_cases declarator iteration function imported) with
    none | markup
  · rw [none] at complete
    cases complete
    exact ⟨0, 0, .nothing, .refl session⟩
  · rw [markup, applyHandlers_one] at complete
    exact recorded_markup above complete

theorem annotates_of_unchanged {canLower : Bool} {before after bindings : List Node}
    (annotates : Functions.Annotates canLower before after bindings)
    (unchanged : before.countP (Functions.changes canLower) = 0) :
    after = before ∧ bindings = [] := by
  induction annotates with
  | nil => exact ⟨rfl, rfl⟩
  | same settled later ih =>
      rw [List.countP_cons] at unchanged
      obtain ⟨same, none⟩ := ih (by omega)
      exact ⟨by rw [same], none⟩
  | typed change later ih => simp [Functions.changes, change] at unchanged
  | lowered number change later ih => simp [Functions.changes, change] at unchanged

theorem listed_same {started parameters : Node}
    (list : started.child? "parameters" = some parameters) :
    Functions.listed started parameters parameters.children = started := by
  obtain ⟨left, right, same, _, equal⟩ := Functions.listed_split list parameters.children
  rw [equal, withChildren_children, ← same, withChildren_children]

theorem changes_parenthesized (canLower : Bool) (bare : Node) :
    0 < (Functions.parenthesized bare).children.countP (Functions.changes canLower) := by
  apply List.countP_pos_iff.mpr
  let parameter : Node :=
    .branch "required_parameter" [(bare.withTrivia "").withSlot (some "pattern")] none
  have shown : parameter.child? "pattern" =
      some ((bare.withTrivia "").withSlot (some "pattern")) := rfl
  have free : parameter.hasChild "type" = false := rfl
  refine ⟨parameter, by simp [Functions.parenthesized, Tree.branch, parameter], ?_⟩
  rcases Functions.changeOf_cases canLower parameter with
    ⟨_, other | none⟩ | ⟨_, pattern, _, ⟨_, typed⟩ | ⟨lower, _⟩ | ⟨annotate, _⟩⟩
  next => exact absurd (show "required_parameter" ∈ Functions.parameterKinds by decide) other
  next => simp [shown] at none
  next => simp [free] at typed
  next => simp [Functions.changes, lower]
  next => simp [Functions.changes, annotate]

theorem resulted_of_unchanged {bound result : Node} (results : Functions.Resulted bound result)
    (unchanged : Functions.resultEdits bound = 0) : result = bound := by
  cases results with
  | kept | barred => rfl
  | added absent free => simp [Functions.resultEdits, absent, free] at unchanged

theorem Records.eq_of_none {edits specifiers : Nat} (records : Records tree handled edits specifiers)
    (noEdit : edits = 0) (noSpecifier : specifiers = 0) : handled = tree := by
  cases records with
  | nothing => rfl
  | annotated | sanitized => cases noEdit
  | shortened => cases noSpecifier
  | @signed _ started parameters bound _ _ _ start list annotates binds results =>
      obtain ⟨unchanged, unresulted⟩ := Nat.add_eq_zero_iff.mp noEdit
      obtain ⟨rfl, rfl⟩ := annotates_of_unchanged annotates unchanged
      rw [listed_same list] at binds
      obtain rfl : started = bound := by simpa [Functions.withBindings?] using binds
      rw [resulted_of_unchanged results unresulted]
      rcases Functions.withParameters?_cases start with
        ⟨_, same⟩ | ⟨unlisted, bare, left, right, _, split, rfl⟩
      next => exact same
      next =>
        rw [Functions.child?_parenthesized unlisted split] at list
        obtain rfl := Option.some.inj list
        exact absurd unchanged (Nat.ne_of_gt (changes_parenthesized _ bare))

end Rule

end ScriptTyping
