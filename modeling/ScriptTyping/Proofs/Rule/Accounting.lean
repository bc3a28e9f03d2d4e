import ScriptTyping.Conversion
import ScriptTyping.Proofs.Parse.Lossless
import ScriptTyping.Proofs.Parse.Numbering
import ScriptTyping.Proofs.Rule.Headers
import ScriptTyping.Proofs.Rule.Insertions

set_option autoImplicit false

namespace ScriptTyping

open ScriptTyping.Tree

namespace Rule

open LoopHeaders

-- The loop has fewer annotations in its header than when it was read.
def isTightened (whole loop : Node) : Bool :=
  loop.kind == Declarations.iterationKind && whole.subtrees.any fun old =>
    old.label.origin == loop.label.origin && decide (headerHints loop < headerHints old)

def tightenedLoops (whole final : Node) : Nat := final.subtrees.countP (isTightened whole)

-- The source of the import or export is a string with a token that was not read. It counts by its
-- tokens in the tree, also where the string is itself a token and its text stays.
def isRewritten (statement : Node) : Bool :=
  (statement.kind == "import_statement" || statement.kind == "export_statement") &&
    match statement.child? "source" with
    | some source => source.kind == "string" &&
        (source.children.map Tree.label).any fun token => token.origin.isNone
    | none => false

def rewrittenSources (final : Node) : Nat := final.subtrees.countP isRewritten

variable {whole old tree handled : Node} {parent : Label} {above : List Label}

theorem countP_subtrees (p : Node → Bool) (tree : Node) :
    tree.subtrees.countP p =
      (if p tree then 1 else 0) + (tree.children.map fun child => child.subtrees.countP p).sum := by
  obtain ⟨label, children⟩ := tree
  rw [subtrees_node, List.countP_cons, List.countP_flatMap, Nat.add_comm]
  rfl

theorem tightenedLoops_eq (whole final : Node) :
    tightenedLoops whole final = (if isTightened whole final then 1 else 0) +
      (final.children.map (tightenedLoops whole)).sum :=
  countP_subtrees (isTightened whole) final

theorem rewrittenSources_eq (final : Node) :
    rewrittenSources final =
      (if isRewritten final then 1 else 0) + (final.children.map rewrittenSources).sum :=
  countP_subtrees isRewritten final

theorem read_whole (regular : whole.Regular) : Read whole := by
  intro part below none
  have numbered := regular.numbered part below
  simp [none] at numbered

theorem Read.sameButLead {old new : Node} (read : Read old) (same : SameButLead old new) :
    Read new := by
  induction old using Tree.induct generalizing new with
  | node label children ih =>
      intro part below
      rcases (mem_subtrees_iff _ _).mp below with rfl | ⟨child, member, lower⟩
      · rw [same.origin]
        exact read _ (self_mem_subtrees _)
      · obtain ⟨found, present, kept⟩ := same.children.exists_of_mem_right member
        exact ih found present (read.below (child_mem_subtrees present)) kept part lower

theorem read_inherited (regular : whole.Regular) (member : old ∈ whole.subtrees)
    (inherits : Inherits old tree) {child : Node} (present : child ∈ tree.children)
    (plain : child.isParameter = false) : Read child := by
  obtain ⟨found, below, touched⟩ := inherits.children.exists_of_mem_right present
  have read := ((read_whole regular).below member).below (child_mem_subtrees below)
  exact read.sameButLead (touched.same plain)

theorem isTightened_of_kind (other : tree.kind ≠ Declarations.iterationKind) :
    isTightened whole tree = false := by
  simp [isTightened, other]

theorem isTightened_iff (regular : whole.Regular) (member : old ∈ whole.subtrees)
    (kind : tree.kind = Declarations.iterationKind)
    (same : tree.label.origin = old.label.origin) :
    isTightened whole tree = true ↔ headerHints tree < headerHints old := by
  rw [isTightened, Bool.and_eq_true, List.any_eq_true, kind]
  constructor
  · rintro ⟨_, other, present, both⟩
    simp only [Bool.and_eq_true, beq_iff_eq, decide_eq_true_eq] at both
    rw [regular.eq_of_origin member present (same.symm.trans both.1.symm)]
    exact both.2
  · intro fewer
    exact ⟨beq_self_eq_true _, old, member, by simp [same, fewer]⟩

theorem isTightened_of_leaf (regular : whole.Regular) {link : Node → Node → Prop}
    (traced : Traced link whole parent tree) (leaf : tree.isLeaf = true) :
    isTightened whole tree = false := by
  rw [isTightened, Bool.and_eq_false_imp]
  intro _
  refine List.any_eq_false.mpr fun old member both => ?_
  simp only [Bool.and_eq_true, beq_iff_eq, decide_eq_true_eq] at both
  obtain ⟨same, fewer⟩ := both
  rcases traced.token leaf with ⟨token, known, moved, _⟩ | ⟨made, _⟩
  · obtain ⟨part, below, rfl, read⟩ := exists_leaf_of_mem_leaves known
    obtain rfl := regular.eq_of_origin member below (same.trans moved.origin)
    rw [headerHints, headerHints, regular.childless old member read] at fewer
    exact absurd fewer (Nat.not_lt_zero _)
  · exact read_whole regular old member (same.trans made)

theorem isTightened_final (regular : whole.Regular) {finals : List Node}
    (pairs : List.Forall₂ (Follows whole handled.label ((handled.label :: above).take 2))
      handled.children finals) :
    isTightened whole (handled.withChildren finals) = isTightened whole handled := by
  by_cases loop : handled.kind = Declarations.iterationKind
  · simp only [isTightened, headerHints_final regular loop pairs]
    rfl
  · rw [isTightened_of_kind loop, isTightened_of_kind (by rwa [kind_withChildren])]

theorem isRewritten_of_kind
    (other : ¬ (tree.kind = "import_statement" ∨ tree.kind = "export_statement")) :
    isRewritten tree = false := by
  simp only [not_or] at other
  simp [isRewritten, other]

theorem labels_string (regular : whole.Regular) {source final : Node}
    (string : source.kind = "string") (follows : Follows whole parent above source final) :
    final.children.map Tree.label = source.children.map Tree.label := by
  rcases follows.cases regular with ⟨_, rfl⟩ | ⟨_, handled, finals, effect, rfl, pairs⟩
  · rfl
  · rw [effect.of_other (by rw [string]; decide)] at pairs
    exact (pairs.imp fun _ _ below => below.label).map_eq

theorem isRewritten_final (regular : whole.Regular) {finals : List Node}
    (pairs : List.Forall₂ (Follows whole handled.label ((handled.label :: above).take 2))
      handled.children finals) : isRewritten (handled.withChildren finals) = isRewritten handled := by
  unfold isRewritten
  rw [kind_withChildren]
  rcases @child?_related _ Follows.slot handled (handled.withChildren finals) pairs "source" with
    ⟨none, none'⟩ | ⟨source, final, some, some', follows⟩
  · rw [none, none']
  · rw [some, some']
    dsimp only
    rw [follows.kind]
    cases string : source.kind == "string" with
    | false => rfl
    | true => rw [labels_string regular (beq_iff_eq.mp string) follows]

theorem isRewritten_inherited (regular : whole.Regular) (member : old ∈ whole.subtrees)
    (inherits : Inherits old tree) : isRewritten tree = false := by
  rw [isRewritten, Bool.and_eq_false_imp]
  intro _
  cases shown : tree.child? "source" with
  | none => rfl
  | some source =>
      rw [Bool.and_eq_false_imp]
      intro string
      have plain : source.isParameter = false := by
        simp [isParameter, beq_iff_eq.mp string, Functions.parameterKinds]
      have read := read_inherited regular member inherits (mem_of_child? shown) plain
      refine List.any_eq_false.mpr fun token listed none => ?_
      obtain ⟨child, present, rfl⟩ := List.mem_map.mp listed
      exact read child (child_mem_subtrees present) (Option.isNone_iff_eq_none.mp none)

theorem Records.label {edits specifiers : Nat} (records : Records tree handled edits specifiers) :
    handled.label = tree.label := by
  cases records with
  | signed kind start list annotates binds results =>
      exact (Functions.label_resulted results).trans (Functions.label_bound start binds)
  | _ => rfl

theorem tightened_of_records (regular : whole.Regular) (known : Received whole parent tree)
    (inner : tree.isLeaf = false) {edits specifiers : Nat}
    (records : Records tree handled edits specifiers) :
    isTightened whole handled = true ↔
      tree.kind = Declarations.iterationKind ∧ 0 < edits := by
  by_cases loop : tree.kind = Declarations.iterationKind
  · obtain ⟨old, member, inherits⟩ := known.1.linked inner (site_of_iteration loop)
    have same := headerHints_of_inherits inherits
    have kept : handled.kind = Declarations.iterationKind :=
      (congrArg Label.kind records.label).trans loop
    have origin : handled.label.origin = old.label.origin := by
      rw [records.label, inherits.label.origin]
    rw [isTightened_iff regular member kept origin, ← same]
    cases records with
    | nothing => simp
    | sanitized _ declares loses => simp [loop, headerHints_sanitize loses]
    | annotated kind => exact absurd (kind.symm.trans loop) (by decide)
    | signed kind =>
        rw [loop] at kind
        exact absurd kind (by decide)
    | shortened kind =>
        rcases kind with kind | kind <;> exact absurd (kind.symm.trans loop) (by decide)
  · have plain : handled.kind ≠ Declarations.iterationKind := by rwa [Tree.kind, records.label]
    simp [isTightened_of_kind plain, loop]

theorem hints_of_records (regular : whole.Regular) (known : Received whole parent tree)
    (inner : tree.isLeaf = false) {edits specifiers : Nat}
    (records : Records tree handled edits specifiers) :
    insertedHints tree + edits =
      insertedHints handled + if isTightened whole handled then 1 else 0 := by
  simp only [tightened_of_records regular known inner records]
  cases records with
  | nothing => simp
  | annotated kind name =>
      have other : tree.kind ≠ Declarations.iterationKind := by
        rw [kind]
        decide
      simp [other, insertedHints_annotate kind name]
  | sanitized kind declares loses =>
      obtain ⟨old, member, inherits⟩ := known.1.linked inner (site_of_iteration kind)
      have same := insertedHints_sanitize kind fun child present changed => by
        refine read_inherited regular member inherits present ?_
        rcases changed with hint | declares
        · have kind : child.kind = "type_annotation" := by simpa [isTypeHint] using hint
          simp [isParameter, kind, Functions.parameterKinds]
        · exact not_isParameter declares
      simp [kind, same]
  | signed kind start list annotates binds results =>
      have other : tree.kind ≠ Declarations.iterationKind := by
        intro loop
        rw [loop] at kind
        exact absurd kind (by decide)
      simp [other, insertedHints_signed kind start list annotates binds results]
  | shortened kind lead specifier quote present string =>
      obtain ⟨old, member, inherits⟩ := known.1.linked inner (site_of_import kind)
      have read := read_inherited regular member inherits (mem_of_child? present)
        (by simp [isParameter, string, Functions.parameterKinds])
      simp [insertedHints_shortened kind present string read]

theorem sources_of_records (regular : whole.Regular) (known : Received whole parent tree)
    (inner : tree.isLeaf = false) {edits specifiers : Nat}
    (records : Records tree handled edits specifiers) :
    specifiers = if isRewritten handled then 1 else 0 := by
  by_cases imported : tree.kind = "import_statement" ∨ tree.kind = "export_statement"
  · cases records with
    | nothing =>
        obtain ⟨old, member, inherits⟩ := known.1.linked inner (site_of_import imported)
        simp [isRewritten_inherited regular member inherits]
    | annotated kind | sanitized kind =>
        rcases imported with other | other <;> exact absurd (kind.symm.trans other) (by decide)
    | signed kind =>
        rcases imported with other | other <;> rw [other] at kind <;> exact absurd kind (by decide)
    | @shortened _ source lead specifier quote present string =>
        obtain ⟨left, right, split, before, inside⟩ := (child?_eq_some_iff _ _ _).mp present
        let tokens := source.withChildren (Imports.quotedTokens lead quote specifier)
        have shown : (tree.withChildren (Children.replace "source" tokens tree.children)).child?
            "source" = some tokens :=
          (child?_eq_some_iff _ _ _).mpr ⟨left, right, by
            rw [children_withChildren, Children.replace, split,
              Children.modify_split _ before inside], before, inside⟩
        have made : isRewritten (tree.withChildren
            (Children.replace "source" tokens tree.children)) = true := by
          simp only [isRewritten, shown, kind_withChildren]
          rcases imported with kind | kind <;>
            simp [kind, tokens, string, Imports.quotedTokens, Tree.mark, Tree.leaf]
        simp [tokens, made]
  · have plain := isRewritten_of_kind (show ¬ (handled.kind = _ ∨ handled.kind = _) by
      rwa [Tree.kind, records.label])
    cases records with
    | shortened kind => exact absurd kind imported
    | _ => simp [plain]

theorem insertedHints_final {finals : List Node}
    (labels : List.Forall₂ (fun child final : Node => final.label = child.label)
      handled.children finals) :
    insertedHints (handled.withChildren finals) + (handled.children.map insertedHints).sum =
      insertedHints handled + (finals.map insertedHints).sum := by
  have own : finals.countP (isInserted handled.kind) =
      handled.children.countP (isInserted handled.kind) :=
    (labels.imp fun _ _ same => isInserted_congr (congrArg Label.kind same)
      (congrArg Label.slot same) (congrArg Label.origin same)).countP_eq
  rw [insertedHints_withChildren, insertedHints_eq handled, hintsUnder, hintsUnder, own]
  omega

theorem leaf_parts (known : Received whole parent tree) (leaf : tree.isLeaf = true) :
    ∀ part ∈ tree.subtrees, part.isLeaf = true ∧ (part.children = [] ∨ part.kind = "string") ∧
      ∃ link parent, Traced link whole parent part := by
  intro part below
  have childless := known.1.childless leaf
  rcases (mem_subtrees_iff _ _).mp below with rfl | ⟨child, member, lower⟩
  · exact ⟨leaf, childless.imp_right And.left, _, _, known.1⟩
  · rcases childless with empty | ⟨_, tokens⟩
    · simp [empty] at member
    · obtain ⟨token, bare⟩ := tokens child member
      rcases (mem_subtrees_iff _ _).mp lower with rfl | ⟨deeper, inside, _⟩
      · exact ⟨token, .inl bare, _, _, (sound_of_below known.2 part member).1⟩
      · simp [bare] at inside

theorem leaf_counts (regular : whole.Regular) (known : Received whole parent tree)
    (leaf : tree.isLeaf = true) : tightenedLoops whole tree = 0 ∧ rewrittenSources tree = 0 := by
  constructor
  · refine List.countP_eq_zero.mpr fun part below => ?_
    obtain ⟨token, _, link, _, traced⟩ := leaf_parts known leaf part below
    simp [isTightened_of_leaf regular traced token]
  · refine List.countP_eq_zero.mpr fun part below => ?_
    obtain ⟨_, empty | string, _⟩ := leaf_parts known leaf part below
    · simp [isRewritten, child?, empty]
    · simp [isRewritten, string]

structure Accounts (whole : Node) (session after : Session) (trees finals : List Node)
    (edits specifiers : Nat) : Prop where
  gains : session.Gains after edits specifiers
  hints : (trees.map insertedHints).sum + edits =
    (finals.map insertedHints).sum + (finals.map (tightenedLoops whole)).sum
  sources : specifiers = (finals.map rewrittenSources).sum
  quiet : edits = 0 → specifiers = 0 → finals = trees

namespace Accounts

variable {session middle after : Session} {edits specifiers laterEdits laterSpecifiers : Nat}

theorem nil (session : Session) : Accounts whole session session [] [] 0 0 :=
  ⟨.refl session, rfl, rfl, fun _ _ => rfl⟩

theorem cons {final : Node} {rest others : List Node}
    (first : Accounts whole session middle [tree] [final] edits specifiers)
    (later : Accounts whole middle after rest others laterEdits laterSpecifiers) :
    Accounts whole session after (tree :: rest) (final :: others) (edits + laterEdits)
      (specifiers + laterSpecifiers) where
  gains := first.gains.trans later.gains
  hints := by
    have here := first.hints
    have there := later.hints
    simp only [List.map_cons, List.map_nil, List.sum_cons, List.sum_nil] at here ⊢
    omega
  sources := by
    have here := first.sources
    have there := later.sources
    simp only [List.map_cons, List.map_nil, List.sum_cons, List.sum_nil] at here ⊢
    omega
  quiet := by
    intro noEdit noSpecifier
    have here := first.quiet (by omega) (by omega)
    rw [later.quiet (by omega) (by omega), List.cons.inj here |>.1]

theorem leaf (regular : whole.Regular) (known : Received whole parent tree)
    (leaf : tree.isLeaf = true) (session : Session) :
    Accounts whole session session [tree] [tree] 0 0 := by
  obtain ⟨tightened, rewritten⟩ := leaf_counts regular known leaf
  exact ⟨.refl session, by simp [tightened], by simp [rewritten], fun _ _ => rfl⟩

theorem inner (regular : whole.Regular) (known : Received whole parent tree)
    (absent : tree.isLeaf = false) (records : Records tree handled edits specifiers)
    (gains : session.Gains middle edits specifiers) {finals : List Node}
    (pairs : List.Forall₂ (Follows whole handled.label ((handled.label :: above).take 2))
      handled.children finals)
    (below : Accounts whole middle after handled.children finals laterEdits laterSpecifiers) :
    Accounts whole session after [tree] [handled.withChildren finals] (edits + laterEdits)
      (specifiers + laterSpecifiers) where
  gains := gains.trans below.gains
  hints := by
    have here := hints_of_records regular known absent records
    have there := below.hints
    have final := insertedHints_final (pairs.imp fun _ _ follows => follows.label)
    simp only [List.map_cons, List.map_nil, List.sum_cons, List.sum_nil]
    rw [tightenedLoops_eq, isTightened_final regular pairs, children_withChildren]
    omega
  sources := by
    have here := sources_of_records regular known absent records
    have there := below.sources
    simp only [List.map_cons, List.map_nil, List.sum_cons, List.sum_nil]
    rw [rewrittenSources_eq, isRewritten_final regular pairs, children_withChildren]
    omega
  quiet := by
    intro noEdit noSpecifier
    have same := records.eq_of_none (by omega) (by omega)
    rw [below.quiet (by omega) (by omega), withChildren_children, same]

end Accounts

theorem accounts_of_visits (regular : whole.Regular) {above : List Label} {tree final : Node}
    {session after : Session} (visits : Visits (table all) above tree session final after) :
    ∀ parent, Received whole parent tree →
      ∃ edits specifiers, Accounts whole session after [tree] [final] edits specifiers := by
  -- The induction is on the visit; for a list of children it also keeps how each of them is run.
  refine @Visits.rec _ (table all)
    (fun _ tree session final after _ => ∀ parent, Received whole parent tree →
      ∃ edits specifiers, Accounts whole session after [tree] [final] edits specifiers)
    (fun above trees session finals after _ => ∀ parent,
      (∀ child ∈ trees, Received whole parent child) →
      List.Forall₂ (Follows whole parent above) trees finals ∧
        ∃ edits specifiers, Accounts whole session after trees finals edits specifiers)
    ?_ ?_ ?_ ?_ _ _ _ _ _ visits
  · intro above tree session present parent known
    exact ⟨0, 0, .leaf regular known present session⟩
  · intro above tree session middle after label children finals absent here below ih parent known
    have received := received_of_effect regular known absent (effect_of_applyHandlers here)
    obtain ⟨pairs, _, _, later⟩ := ih label received
    obtain ⟨_, _, records, gains⟩ := recorded_applyHandlers above here
    exact ⟨_, _, .inner regular known absent records gains pairs later⟩
  · intro above session parent known
    exact ⟨.nil, 0, 0, .nil session⟩
  · intro above tree final rest others session middle after first later ih ihs parent known
    obtain ⟨_, _, here⟩ := ih parent (known tree (by simp))
    obtain ⟨pairs, _, _, there⟩ := ihs parent fun child member => known child (by simp [member])
    exact ⟨.cons ⟨⟨_, _, first⟩, known tree (by simp)⟩ pairs, _, _, here.cons there⟩

theorem walk_accounts {session : Session} (regular : whole.Regular)
    (complete : (walk all whole session).fault = none) :
    ∃ edits specifiers, Accounts whole session (walk all whole session).state [whole]
      [(walk all whole session).tree] edits specifiers :=
  accounts_of_visits regular (visits_of_walk (stepBudget whole) whole session complete) whole.label
    (received_whole regular _)

end Rule

namespace Conversion

open Rule

variable {source : String} {parse : ParseTree} {conversion : Conversion}

theorem walk_of_transform {trace : Trace} {tree : Node}
    (completes : transform trace tree = .ok conversion) :
    ∃ walking : Trace, (walk all tree (.start walking)).fault = none ∧
      conversion.code = (walk all tree (.start walking)).tree.text ∧
      ∀ type, type ≠ "phase_start" → type ≠ "phase_end" →
        walking.count type = trace.count type ∧
        conversion.trace.count type = (walk all tree (.start walking)).state.trace.count type := by
  simp only [transform] at completes
  split at completes
  next => cases completes
  next complete =>
    cases completes
    refine ⟨_, complete, rfl, fun type notStart notEnd => ⟨Trace.count_enter _ _ notStart, ?_⟩⟩
    rw [Trace.count_leave _ notEnd, Trace.count_enter _ _ notStart, Trace.count_leave _ notEnd]

theorem walk_of_run (undamaged : parse.label.hasError = false)
    (completes : run source parse = .ok conversion) :
    ∃ before trace, readParse source parse = .ok before ∧
      (walk all before (.start trace)).fault = none ∧
      conversion.code = (walk all before (.start trace)).tree.text ∧
      ∀ type, type ≠ "phase_start" → type ≠ "phase_end" → trace.count type = 0 ∧
        conversion.trace.count type = (walk all before (.start trace)).state.trace.count type := by
  unfold run at completes
  dsimp only at completes
  split at completes
  next => cases completes
  next failure malformed => exact absurd malformed (readParse_ne_malformed undamaged failure)
  next before read =>
    split at completes
    next => cases completes
    next transformed same =>
      cases completes
      obtain ⟨walking, complete, code, counts⟩ := walk_of_transform same
      refine ⟨before, walking, read, complete, code, fun type notStart notEnd => ?_⟩
      obtain ⟨begun, ended⟩ := counts type notStart notEnd
      rw [begun, Trace.count_leave _ notEnd, Trace.count_leave _ notEnd,
        Trace.count_enter _ _ notStart, Trace.count_enter _ _ notStart]
      exact ⟨rfl, ended⟩

/-- The edits of a conversion are the annotations that it inserts and the loops that it takes
annotations from, and its specifiers are the sources that it rewrites. So it changes nothing without
recording that. -/
theorem run_accounts (undamaged : parse.label.hasError = false)
    (ordered : LeavesOrdered (parsedLeaves parse)) (completes : run source parse = .ok conversion) :
    ∃ before trace, readParse source parse = .ok before ∧
      (walk all before (.start trace)).fault = none ∧
      conversion.code = (walk all before (.start trace)).tree.text ∧
      conversion.trace.count "edit" = insertedHints (walk all before (.start trace)).tree +
        tightenedLoops before (walk all before (.start trace)).tree ∧
      conversion.trace.count "specifier" =
        rewrittenSources (walk all before (.start trace)).tree ∧
      (conversion.trace.count "edit" = 0 → conversion.trace.count "specifier" = 0 →
        conversion.code = source) := by
  obtain ⟨before, trace, read, complete, code, counts⟩ := walk_of_run undamaged completes
  have regular := (readParse_regular read).1
  obtain ⟨edits, specifiers, accounts⟩ := walk_accounts regular complete
  obtain ⟨noEdit, sameEdits⟩ := counts "edit" (by decide) (by decide)
  obtain ⟨noSpecifier, sameSpecifiers⟩ := counts "specifier" (by decide) (by decide)
  have edited : conversion.trace.count "edit" = edits := by
    rw [sameEdits, accounts.gains.edits, show Session.trace (.start trace) = trace from rfl, noEdit,
      Nat.zero_add]
  have specified : conversion.trace.count "specifier" = specifiers := by
    rw [sameSpecifiers, accounts.gains.specifiers, show Session.trace (.start trace) = trace from rfl,
      noSpecifier, Nat.zero_add]
  have hints := accounts.hints
  have sources := accounts.sources
  have unread := (read_whole regular).insertedHints_eq_zero
  simp only [List.map_cons, List.map_nil, List.sum_cons, List.sum_nil] at hints sources
  refine ⟨before, trace, read, complete, code, by omega, by omega, fun quiet quiet' => ?_⟩
  have same := accounts.quiet (by omega) (by omega)
  rw [code, List.cons.inj same |>.1]
  exact text_of_readParse ordered read

def annotatedSource : String := "import \"./x.js\"; let n = 1; for (const i: T of n) f;"

def annotatedParse : ParseTree :=
  let token (kind : String) (start stop : Nat) (slot : Option String) : ParseTree :=
    .node ⟨kind, start, stop, slot, false, false, false⟩ []
  let inner (kind : String) (start stop : Nat) (slot : Option String)
      (children : List ParseTree) : ParseTree :=
    .node ⟨kind, start, stop, slot, false, false, false⟩ children
  inner "program" 0 52 none
    [inner "import_statement" 0 16 none
      [token "import" 0 6 none,
       inner "string" 7 15 (some "source")
         [token "\"" 7 8 none, token "string_fragment" 8 14 none, token "\"" 14 15 none],
       token ";" 15 16 none],
     inner "lexical_declaration" 17 27 none
      [token "let" 17 20 (some "kind"),
       inner "variable_declarator" 21 26 none
         [token "identifier" 21 22 (some "name"), token "=" 23 24 none,
          token "number" 25 26 (some "value")],
       token ";" 26 27 none],
     inner Declarations.iterationKind 28 52 none
      [token "for" 28 31 none, token "(" 32 33 none, token "const" 33 38 (some "kind"),
       token "identifier" 39 40 (some "left"),
       inner "type_annotation" 40 43 none
         [token ":" 40 41 none, token "type_identifier" 42 43 none],
       token "of" 44 46 none, token "identifier" 47 48 (some "right"), token ")" 48 49 none,
       inner "expression_statement" 50 52 (some "body")
         [token "identifier" 50 51 none, token ";" 51 52 none]]]

theorem annotatedSource_accounted :
    annotatedParse.label.hasError = false ∧ LeavesOrdered (parsedLeaves annotatedParse) ∧
      ∃ conversion before trace, run annotatedSource annotatedParse = .ok conversion ∧
        conversion.code = "import \"./x\"; let n: number = 1; for (const i of n) f;" ∧
        readParse annotatedSource annotatedParse = .ok before ∧
        insertedHints (walk all before (.start trace)).tree +
          tightenedLoops before (walk all before (.start trace)).tree = 2 ∧
        rewrittenSources (walk all before (.start trace)).tree = 1 := by
  have ordered : LeavesOrdered (parsedLeaves annotatedParse) := by
    unfold LeavesOrdered
    decide +kernel
  have recorded : (run annotatedSource annotatedParse).toOption.map (fun conversion =>
      (conversion.code, conversion.trace.count "edit", conversion.trace.count "specifier")) =
        some ("import \"./x\"; let n: number = 1; for (const i of n) f;", 2, 1) := by
    decide +kernel
  cases completes : run annotatedSource annotatedParse with
  | error fault => simp [completes, Except.toOption] at recorded
  | ok conversion =>
      obtain ⟨before, trace, read, _, _, edits, specifiers, _⟩ := run_accounts rfl ordered completes
      simp only [completes, Except.toOption, Option.map_some, Option.some.injEq,
        Prod.mk.injEq] at recorded
      exact ⟨rfl, ordered, conversion, before, trace, rfl, recorded.1, read,
        edits.symm.trans recorded.2.1, specifiers.symm.trans recorded.2.2⟩

end Conversion

end ScriptTyping
