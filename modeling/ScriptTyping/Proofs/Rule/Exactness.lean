import ScriptTyping.Conversion
import ScriptTyping.Proofs.Rule.Elements
import ScriptTyping.Proofs.Rule.Notes

set_option autoImplicit false

namespace ScriptTyping

open ScriptTyping.Tree

namespace Rule

variable {whole tree handled final : Node} {parent : Label} {above : List Label}

theorem any_innersAll {finals : List Node}
    (exact : ∀ final ∈ finals, final.inners.any isMarkup = true ↔ 0 < elements final) :
    (innersAll finals).any isMarkup = true ↔ 0 < (finals.map elements).sum := by
  induction finals with
  | nil => simp [innersAll]
  | cons final rest ih =>
      have here := exact final (by simp)
      have later := ih fun other member => exact other (by simp [member])
      rw [innersAll, List.any_append, Bool.or_eq_true, here, later, List.map_cons, List.sum_cons]
      omega

theorem any_inners_of_follows (regular : whole.Regular)
    (follows : Follows whole parent above tree final) :
    final.inners.any isMarkup = true ↔ 0 < elements final := by
  refine Follows.induct regular ?_ ?_ follows
  · intro parent above tree follows present
    have none : elements tree = 0 := (elements_eq_zero_iff tree).mpr fun part below => by
      simp [isElement, (leaf_parts follows.known present part below).1]
    obtain ⟨label, children⟩ := tree
    have leaf : label.isLeaf = true := present
    simp [inners, leaf, none]
  · intro parent above tree handled finals follows absent effect below
    have inner : handled.label.isLeaf = false := by
      rw [effect.label]
      exact absent
    have later : (innersAll finals).any isMarkup = true ↔ 0 < (finals.map elements).sum := by
      refine any_innersAll fun final member => ?_
      obtain ⟨_, _, _, same⟩ := below.exists_of_mem_right member
      exact same
    have own : isElement (handled.withChildren finals) = isMarkup handled.label := by
      simp [isElement, Tree.isLeaf, withChildren, inner]
    rw [withChildren, inners, elements_eq, ← withChildren, own, children_withChildren]
    simp only [inner, Bool.false_eq_true, if_false, List.any_cons, Bool.or_eq_true, later]
    cases isMarkup handled.label
    · simp
    · simp only [if_true, true_or, true_iff]
      omega

def shedAt (part : Node) : List Node :=
  if part.kind == "type_annotation" then [part]
  else if part.kind == Declarations.iterationKind && LoopHeaders.declares part then
    (((LoopHeaders.header part.children).filter LoopHeaders.isDeclaration).flatMap fun declaration =>
      (declaration.children.filter LoopHeaders.isDeclarator).flatMap fun declarator =>
        declarator.children.filter (Children.inSlot "type"))
  else if part.kind == "import_statement" || part.kind == "export_statement" then
    part.children.filter fun child => Children.inSlot "source" child && child.kind == "string"
  else []

-- The annotations of the tree, the types of declarators in the headers of loops that declare their
-- variable, and the strings that are sources of imports and exports.
def shed (whole : Node) : List Node := whole.subtrees.flatMap shedAt

def Sheltered (whole : Node) : Prop :=
  ∀ lost ∈ shed whole, ∀ part ∈ lost.subtrees, part.isLeaf = false → isMarkup part.label = false

theorem Sheltered.elements_eq_zero (sheltered : Sheltered whole) {part lost : Node}
    (member : part ∈ whole.subtrees) (gone : lost ∈ shedAt part) : elements lost = 0 := by
  refine (elements_eq_zero_iff lost).mpr fun lower below => ?_
  have plain := sheltered lost (List.mem_flatMap.mpr ⟨part, member, gone⟩) lower below
  rw [isElement, Bool.and_eq_false_imp]
  intro inner
  exact plain (by simpa using inner)

theorem mem_shedAt_hint {part : Node} (hint : LoopHeaders.isTypeHint part = true) :
    part ∈ shedAt part := by
  rw [shedAt, if_pos (by simpa [LoopHeaders.isTypeHint] using hint)]
  exact List.mem_singleton_self part

theorem mem_shedAt_type {loop declaration declarator hint : Node}
    (iteration : loop.kind = Declarations.iterationKind) (declares : LoopHeaders.declares loop = true)
    (inside : declaration ∈ LoopHeaders.header loop.children)
    (declaring : LoopHeaders.isDeclaration declaration = true)
    (member : declarator ∈ declaration.children) (kind : LoopHeaders.isDeclarator declarator = true)
    (typed : hint ∈ declarator.children) (slot : hint.slot = some "type") : hint ∈ shedAt loop := by
  have other : ¬ (loop.kind == "type_annotation") = true := by
    rw [iteration]
    decide
  rw [shedAt, if_neg other, if_pos (by simp [iteration, declares])]
  simp only [List.mem_flatMap, List.mem_filter]
  exact ⟨declaration, ⟨inside, declaring⟩, declarator, ⟨member, kind⟩, typed,
    (Children.inSlot_iff _ _).mpr slot⟩

theorem mem_shedAt_source {statement source : Node}
    (imported : statement.kind = "import_statement" ∨ statement.kind = "export_statement")
    (member : source ∈ statement.children) (slot : source.slot = some "source")
    (string : source.kind = "string") : source ∈ shedAt statement := by
  have inside := (Children.inSlot_iff "source" source).mpr slot
  rcases imported with kind | kind <;>
    simp [shedAt, kind, Declarations.iterationKind, member, inside, string]

theorem elements_touched {old new : Node} (touched : Touched old new)
    (plain : new.isParameter = false) : elements new = elements old :=
  elements_sameButLead (touched.same plain)

theorem unmarked_of_inherits (sheltered : Sheltered whole) {old : Node} (member : old ∈ whole.subtrees)
    (inherits : Inherits old tree) (iteration : tree.kind = Declarations.iterationKind)
    (declares : LoopHeaders.declares tree = true) : Unmarked tree := by
  intro child present
  have headers := LoopHeaders.header_related Touched.slot inherits.children
  obtain ⟨found, inside, touched⟩ := headers.exists_of_mem_right present
  have below : found ∈ whole.subtrees :=
    mem_subtrees_trans (child_mem_subtrees ((List.takeWhile_sublist _).subset inside)) member
  refine ⟨fun hint => ?_, fun declaring declarator listed kind hint typed slot => ?_⟩
  · have plain : child.isParameter = false := by
      have kind : child.kind = "type_annotation" := by simpa [LoopHeaders.isTypeHint] using hint
      simp [isParameter, kind, Functions.parameterKinds]
    have hint' : LoopHeaders.isTypeHint found = true := by
      simpa [LoopHeaders.isTypeHint, touched.kind] using hint
    rw [elements_touched touched plain]
    exact sheltered.elements_eq_zero below (mem_shedAt_hint hint')
  · have same := touched.same (LoopHeaders.not_isParameter declaring)
    obtain ⟨declarator', listed', same'⟩ := same.children.exists_of_mem_right listed
    obtain ⟨hint', typed', equal⟩ := same'.children.exists_of_mem_right typed
    have kinds : old.kind = Declarations.iterationKind := by
      rw [← iteration]
      exact inherits.label.kind.symm
    rw [elements_sameButLead equal]
    refine sheltered.elements_eq_zero member (mem_shedAt_type kinds ?_ inside ?_ listed' ?_ typed' ?_)
    · rw [← declares_related Touched.slot Touched.kind inherits.children, declares]
    · simpa [LoopHeaders.isDeclaration, same.kind] using declaring
    · simpa [LoopHeaders.isDeclarator, same'.kind] using kind
    · rw [← equal.slot, slot]

theorem elements_of_effect (sheltered : Sheltered whole) (known : Received whole parent tree)
    (inner : tree.isLeaf = false) (effect : Effect above tree handled) :
    elements handled = elements tree := by
  cases effect with
  | untouched | declared | iterated | unlisted | imported => rfl
  | annotated => exact elements_annotate tree
  | sanitized kind declares =>
      obtain ⟨old, member, inherits⟩ := known.1.linked inner (site_of_iteration kind)
      exact elements_sanitize (unmarked_of_inherits sheltered member inherits kind declares)
  | signed kind start list annotates binds results =>
      exact elements_signed start list annotates binds results
  | @shortened kind source quote quoted present string text shorter =>
      obtain ⟨old, member, inherits⟩ := known.1.linked inner (site_of_import kind)
      obtain ⟨found, listed, touched⟩ :=
        inherits.children.exists_of_mem_right (mem_of_child? present)
      have plain : source.isParameter = false := by
        simp [isParameter, string, Functions.parameterKinds]
      have kinds : old.kind = "import_statement" ∨ old.kind = "export_statement" := by
        have same : old.kind = tree.kind := inherits.label.kind.symm
        rwa [same]
      have none : elements source = 0 := by
        rw [elements_touched touched plain]
        refine sheltered.elements_eq_zero member (mem_shedAt_source kinds listed ?_ ?_)
        · rw [← touched.slot, slot_of_child? present]
        · rw [← touched.kind, string]
      exact elements_shortened present string none _ _ _

theorem elements_of_follows (regular : whole.Regular) (sheltered : Sheltered whole)
    (follows : Follows whole parent above tree final) : elements final = elements tree := by
  refine Follows.induct regular ?_ ?_ follows
  · intro parent above tree follows leaf
    rfl
  · intro parent above tree handled finals follows inner effect below
    have here := elements_of_effect sheltered follows.known inner effect
    have later : finals.map elements = handled.children.map elements :=
      (below.imp fun _ _ ⟨_, same⟩ => same).map_eq
    exact (elements_of_sum (congrArg List.sum later)).trans here

theorem elements_of_walk {session : Session} (regular : whole.Regular) (sheltered : Sheltered whole)
    (complete : (walk all whole session).fault = none) :
    elements (walk all whole session).tree = elements whole :=
  elements_of_follows regular sheltered (follows_of_walk regular complete)

end Rule

namespace Trace

def markups (trace : Trace) : Nat := trace.events.toList.countP (·.entry.isMarkup)

theorem markups_record (trace : Trace) (entry : Entry) :
    (trace.record entry).markups = trace.markups + if entry.isMarkup then 1 else 0 := by
  simp [markups, record, add, List.countP_append, List.countP_singleton]

theorem markups_recordAll {entries : List Entry} (plain : ∀ entry ∈ entries, entry.isMarkup = false)
    (trace : Trace) : (recordAll entries trace).markups = trace.markups := by
  induction entries generalizing trace with
  | nil => rfl
  | cons entry rest ih =>
      have here := markups_record trace entry
      rw [plain entry (by simp)] at here
      exact (ih (fun other member => plain other (by simp [member])) (trace.record entry)).trans here

end Trace

-- A detector that has found markup owes the trace one decision.
def Session.owed (session : Session) : Nat := if session.hasFound Conversion.detector then 1 else 0

def Session.Tallied (before after : Session) : Prop :=
  after.trace.markups + before.owed = before.trace.markups + after.owed

namespace Rule

theorem mem_table_all {handler : Handler Session} (member : handler ∈ table all) :
    ∃ rule : Rule, handler = rule.handler Conversion.detector := by
  simp only [table, all, tableFrom, List.mem_cons, List.not_mem_nil, or_false] at member
  obtain rfl | rfl | rfl | rfl | rfl := member
  · exact ⟨declarations, rfl⟩
  · exact ⟨loopHeaders, rfl⟩
  · exact ⟨functions, rfl⟩
  · exact ⟨imports, rfl⟩
  · exact ⟨markup, rfl⟩

theorem tallied_of_handle (rule : Rule) (above : List Label) (tree : Node) (session : Session) :
    session.Tallied ((rule.handler Conversion.detector).handle above tree session).state := by
  by_cases detects : rule = markup
  · subst detects
    have found := hasFound_of_handle markup Conversion.detector Conversion.detector above tree session
    simp only [beq_self_eq_true, Bool.or_true] at found
    rw [Session.Tallied, Session.owed, Session.owed, found]
    simp only [handler, Markup.handler, Markup.handle]
    split
    next => simp
    next =>
      have one := Trace.markups_record session.trace
        (.decision tree.kind "markup" "selects the .tsx output variant")
      simp [Session.record, one, Entry.isMarkup]
  · obtain ⟨entries, plain, noted⟩ := notes_of_handle detects Conversion.detector above tree session
    have same := Trace.markups_recordAll (fun entry member => (plain entry member).2) session.trace
    rw [Session.Tallied, noted, same, Session.owed, Session.owed, Session.hasFound,
      Session.hasFound, marked_of_handle detects]

theorem tallied_of_walk (tree : Node) (session : Session) :
    session.Tallied (walk all tree session).state := by
  refine @walk_related _ _ Session.Tallied (fun _ => rfl) ?_ ?_ _ tree session
  · intro first second third here later
    rw [Session.Tallied] at here later ⊢
    omega
  · intro handler member above tree session
    obtain ⟨rule, rfl⟩ := mem_table_all member
    exact tallied_of_handle rule above tree session

def HasElement (tree : Node) : Prop :=
  ∃ part ∈ tree.subtrees, part.isLeaf = false ∧ isMarkup part.label = true

/-- In a completed run the detector finds markup if and only if the final tree has an element; if no element
is or lies below a node that may be taken away, if and only if the tree that was read has one. The run adds
one decision to the trace if the detector has found markup, and none otherwise. -/
theorem walk_detects_markup {before : Node} {trace : Trace} (regular : before.Regular)
    (complete : (walk all before (.start trace)).fault = none) :
    ((walk all before (.start trace)).state.hasFound Conversion.detector = true ↔
      HasElement (walk all before (.start trace)).tree) ∧
    (Sheltered before →
      ((walk all before (.start trace)).state.hasFound Conversion.detector = true ↔
        HasElement before)) ∧
    (walk all before (.start trace)).state.trace.markups = trace.markups +
      if (walk all before (.start trace)).state.hasFound Conversion.detector then 1 else 0 := by
  have registered : (markup, Conversion.detector) ∈ all.zipIdx := by decide
  have found : (walk all before (.start trace)).state.hasFound Conversion.detector = true ↔
      0 < elements (walk all before (.start trace)).tree := by
    have initial : (Session.start trace).hasFound Conversion.detector = false := rfl
    rw [hasFound_of_walk registered complete, initial, Bool.false_or,
      any_inners_of_follows regular (follows_of_walk regular complete)]
  refine ⟨found.trans (elements_pos_iff _), fun sheltered => ?_, ?_⟩
  · rw [found, elements_of_walk regular sheltered complete]
    exact elements_pos_iff before
  · have tallied := tallied_of_walk before (.start trace)
    simpa [Session.Tallied, Session.owed, Session.start, Session.hasFound] using tallied

-- The only element is in a default, which moves into the body.
def defaulted : Node :=
  .numberedAs 0 <| .branch "function_declaration"
    [.numberedAs 1 <| .mark "function" "",
     .numberedAs 2 <| .leaf "identifier" "f" " " (some "name"),
     .numberedAs 3 <| .branch "formal_parameters"
      [.numberedAs 4 <| .mark "(" "",
       .numberedAs 5 <| .branch "required_parameter"
        [.numberedAs 6 <| .branch "object_pattern"
          [.numberedAs 7 <| .mark "\x7b" "",
           .numberedAs 8 <| .branch "object_assignment_pattern"
            [.numberedAs 9 <| .leaf "shorthand_property_identifier_pattern" "a" "" (some "left"),
             .numberedAs 10 <| .mark "=" " ",
             .numberedAs 11 <| .branch "jsx_self_closing_element"
              [.numberedAs 12 <| .mark "<" " ",
               .numberedAs 13 <| .leaf "identifier" "b" "" (some "name"),
               .numberedAs 14 <| .mark "/>" ""] (some "right")] none,
           .numberedAs 15 <| .mark "\x7d" ""] (some "pattern")] none,
       .numberedAs 16 <| .mark ")" ""] (some "parameters"),
     .numberedAs 17 <| .branch "statement_block"
      [.numberedAs 18 <| .mark "\x7b" " ", .numberedAs 19 <| .mark "\x7d" ""] (some "body")] none

theorem defaulted_detected :
    defaulted.Regular ∧ (walk all defaulted (.start .empty)).fault = none ∧ Sheltered defaulted ∧
      (walk all defaulted (.start .empty)).state.hasFound Conversion.detector = true ∧
      HasElement (walk all defaulted (.start .empty)).tree ∧
      (walk all defaulted (.start .empty)).state.trace.markups = 1 := by
  have regular : defaulted.Regular := ⟨by decide, by decide, by decide⟩
  have complete : (walk all defaulted (.start .empty)).fault = none := by decide +kernel
  have sheltered : Sheltered defaulted := by
    unfold Sheltered
    decide +kernel
  obtain ⟨final, initial, tally⟩ := walk_detects_markup regular complete
  have element : HasElement defaulted := (elements_pos_iff defaulted).mp (by decide +kernel)
  have found := (initial sheltered).mpr element
  rw [found] at tally
  exact ⟨regular, complete, sheltered, found, final.mp found, tally⟩

def ShelteredBelow (whole : Node) : Prop :=
  ∀ lost ∈ shed whole, ∀ child ∈ lost.children, ∀ part ∈ child.subtrees,
    part.isLeaf = false → isMarkup part.label = false

def typedByElement : Node :=
  .numberedAs 0 <| .branch "for_in_statement"
    [.numberedAs 1 <| .mark "for" "",
     .numberedAs 2 <| .mark "(" " ",
     .numberedAs 3 <| .branch "lexical_declaration"
      [.numberedAs 4 <| .leaf "const" "const" "" (some "kind"),
       .numberedAs 5 <| .branch "variable_declarator"
        [.numberedAs 6 <| .leaf "identifier" "a" " " (some "name"),
         .numberedAs 7 <| .branch "jsx_self_closing_element"
          [.numberedAs 8 <| .mark "<" " ",
           .numberedAs 9 <| .leaf "identifier" "b" "" (some "name"),
           .numberedAs 10 <| .mark "/>" ""] (some "type")] none] (some "left"),
     .numberedAs 11 <| .mark "of" " ",
     .numberedAs 12 <| .leaf "identifier" "c" " " (some "right"),
     .numberedAs 13 <| .mark ")" "",
     .numberedAs 14 <| .branch "statement_block"
      [.numberedAs 15 <| .mark "\x7b" " ", .numberedAs 16 <| .mark "\x7d" ""] (some "body")] none

-- An element that is itself the type of a declarator in a loop header is taken away before the
-- detector comes to it, though none lies below a node that is taken away.
theorem typedByElement_undetected :
    typedByElement.Regular ∧ (walk all typedByElement (.start .empty)).fault = none ∧
      ShelteredBelow typedByElement ∧
      ¬ ((walk all typedByElement (.start .empty)).state.hasFound Conversion.detector = true ↔
        HasElement typedByElement) := by
  refine ⟨⟨by decide, by decide, by decide⟩, by decide +kernel, ?_, fun exact => ?_⟩
  · unfold ShelteredBelow
    decide +kernel
  · have found := exact.mpr ((elements_pos_iff typedByElement).mp (by decide +kernel))
    have missed : (walk all typedByElement (.start .empty)).state.hasFound Conversion.detector =
        false := by decide +kernel
    rw [missed] at found
    cases found

end Rule

end ScriptTyping
