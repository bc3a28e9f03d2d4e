import ScriptTyping.Proofs.Rule.Detection
import ScriptTyping.Proofs.Rule.Outcome
import ScriptTyping.Proofs.Rule.Shape

set_option autoImplicit false

namespace ScriptTyping.Rule

open ScriptTyping.Tree

def inOrder : List Rule := [functions, loopHeaders, declarations, imports, markup]

def Flat (tree : Node) : Prop :=
  tree.isLeaf = false ∧ ∀ child ∈ tree.children, child.isLeaf = true

abbrev Quoted : Node → Prop := Below (Formed (fun _ => True) Flat)

theorem lasting_flat : Lasting (fun _ => True) Flat where
  block_lead _ _ := trivial
  string_lead lead flat := by
    refine ⟨by simpa using flat.1, fun child member => ?_⟩
    obtain ⟨old, present, same⟩ := (children_withTrivia lead _).exists_of_mem_right member
    have token := flat.2 old present
    rcases same with rfl | rfl <;> simpa using token
  opened _ := trivial
  quoted quote specifier flat := by
    refine ⟨flat.1, fun child member => ?_⟩
    rcases (by simpa [Imports.quotedTokens] using member) with rfl | rfl | rfl <;> rfl

variable {rule : Rule} {rules : List Rule} {above : List Label} {tree final : Node}

namespace Passes

theorem eq_of_flat (passes : Passes rules above tree final) (flat : Flat tree)
    (other : ∀ rule ∈ rules, tree.kind ∉ rule.kinds) : final = tree := by
  obtain ⟨finals, rfl, below⟩ := passes.below flat.1 other
  obtain ⟨label, children⟩ := tree
  have same : List.Forall₂ Eq finals children :=
    below.right_unique (List.forall₂_same.mpr fun child _ => rfl : List.Forall₂ Eq children children)
      fun child member final other passes same => by
        rw [passes.eq_of_leaf (flat.2 child member), same]
  rw [List.forall₂_eq_eq_eq] at same
  rw [label_node, same]

theorem flat (above : List Label) (flat : Flat tree)
    (other : ∀ rule ∈ rules, tree.kind ∉ rule.kinds) : Passes rules above tree tree := by
  obtain ⟨label, children⟩ := tree
  exact unhandled flat.1 other
    (List.forall₂_same.mpr fun child member => leaf rules _ (flat.2 child member))

theorem edited {edit : List Node → List Node} (passes : Passes rules above tree final)
    (other : ∀ rule ∈ rules, tree.kind ∉ rule.kinds)
    (related : ∀ {olds news}, List.Forall₂ (Passes rules ((tree.label :: above).take 2)) olds news →
      List.Forall₂ (Passes rules ((tree.label :: above).take 2)) (edit olds) (edit news)) :
    Passes rules above (tree.withChildren (edit tree.children))
      (final.withChildren (edit final.children)) := by
  cases leaf : tree.isLeaf with
  | true =>
      rw [passes.eq_of_leaf leaf]
      exact Passes.leaf rules above leaf
  | false =>
      obtain ⟨finals, rfl, below⟩ := passes.below leaf other
      exact unhandled leaf other (related below)

end Passes

theorem made_loopHeaders (above : List Label) (tree : Node) :
    made loopHeaders above tree =
      if LoopHeaders.declares tree = true then LoopHeaders.sanitize tree else tree := by
  simp only [made, handler, LoopHeaders.handler, LoopHeaders.handle]
  cases LoopHeaders.declares tree with
  | false => rfl
  | true =>
      simp only [Bool.not_true, Bool.false_eq_true, if_false, if_true]
      split <;> rfl

theorem made_declarations (above : List Label) (tree : Node) :
    made declarations above tree =
      if tree.hasChild "name" = true ∧ tree.hasChild "type" = false ∧
          Declarations.inLoopHeader above = false
        then Declarations.annotate tree else tree := by
  simp only [made, handler, Declarations.handler, Declarations.handle]
  cases name : tree.child? "name" with
  | none => simp [hasChild, name]
  | some found =>
      cases tree.hasChild "type" <;> cases Declarations.inLoopHeader above <;>
        simp [hasChild, name]

theorem made_markup (above : List Label) (tree : Node) : made markup above tree = tree := rfl

-- What a rule makes of a node fits together with the runs that have gone over the node's children
-- before.
def Undisturbed (before : List Rule) (rule : Rule) : Prop :=
  ∀ (above : List Label) (tree : Node) (children : List Node), tree.kind ∈ rule.kinds → Quoted tree →
    List.Forall₂ (Passes before ((tree.label :: above).take 2)) tree.children children →
    List.Forall₂ (Passes before ((tree.label :: above).take 2)) (made rule above tree).children
      (made rule above (.node tree.label children)).children

theorem undisturbed_functions : Undisturbed [] functions := by
  intro above tree children member quoted below
  have same : List.Forall₂ Eq tree.children children := below.imp fun _ _ => Eq.symm
  rw [List.forall₂_eq_eq_eq] at same
  obtain ⟨label, _⟩ := tree
  subst same
  exact List.forall₂_same.mpr fun child _ => rfl

theorem stripDeclarator_passes (passes : Passes [functions] above tree final) :
    Passes [functions] above (LoopHeaders.stripDeclarator tree)
      (LoopHeaders.stripDeclarator final) := by
  unfold LoopHeaders.stripDeclarator
  rw [show LoopHeaders.isDeclarator final = LoopHeaders.isDeclarator tree by
    rw [LoopHeaders.isDeclarator, passes.kind, LoopHeaders.isDeclarator]]
  split
  next declarator =>
    have kind : tree.kind = "variable_declarator" := by
      simpa [LoopHeaders.isDeclarator] using declarator
    refine passes.edited ?_ (erase_related Passes.slot)
    rw [kind]
    decide
  next => exact passes

theorem strip_passes (passes : Passes [functions] above tree final) :
    (LoopHeaders.strip tree = none ∧ LoopHeaders.strip final = none) ∨
      ∃ left right, LoopHeaders.strip tree = some left ∧ LoopHeaders.strip final = some right ∧
        Passes [functions] above left right := by
  have hint : LoopHeaders.isTypeHint final = LoopHeaders.isTypeHint tree := by
    rw [LoopHeaders.isTypeHint, passes.kind, LoopHeaders.isTypeHint]
  have declaration : LoopHeaders.isDeclaration final = LoopHeaders.isDeclaration tree := by
    rw [LoopHeaders.isDeclaration, passes.kind, LoopHeaders.isDeclaration]
  unfold LoopHeaders.strip
  rw [hint, declaration]
  split
  next => exact .inl ⟨rfl, rfl⟩
  next =>
    split
    next declares =>
      refine .inr ⟨_, _, rfl, rfl, passes.edited ?_ ?_⟩
      · rcases LoopHeaders.kind_of_isDeclaration declares with kind | kind <;> rw [kind] <;> decide
      · intro olds news pairs
        rw [List.forall₂_map_left_iff, List.forall₂_map_right_iff]
        exact pairs.imp fun _ _ => stripDeclarator_passes
    next => exact .inr ⟨_, _, rfl, rfl, passes⟩

theorem undisturbed_loopHeaders : Undisturbed [functions] loopHeaders := by
  intro above tree children member quoted below
  have declares : LoopHeaders.declares (.node tree.label children) = LoopHeaders.declares tree :=
    declares_related Passes.slot Passes.kind below
  rw [made_loopHeaders, made_loopHeaders, declares]
  split
  next =>
    refine List.rel_append ?_ (dropWhile_related Passes.slot below)
    exact (LoopHeaders.header_related Passes.slot below).filterMap fun _ _ => strip_passes
  next => exact below

theorem flat_toNode (hint : TypeHint) (slot : Option String) : Flat (hint.toNode slot) := by
  refine ⟨rfl, fun child member => ?_⟩
  rcases (by simpa [TypeHint.toNode, branch] using member :
    child = mark ":" "" ∨ child = leaf hint.typeKind hint.typeText " " none) with rfl | rfl <;> rfl

theorem undisturbed_declarations : Undisturbed [functions, loopHeaders] declarations := by
  intro above tree children member quoted below
  have slots : ∀ slot, hasChild (.node tree.label children) slot = tree.hasChild slot :=
    fun slot => hasChild_related Passes.slot below slot
  rw [made_declarations, made_declarations, slots, slots]
  split
  next =>
    have hint : TypeHint.infer (child? (.node tree.label children) "value") =
        TypeHint.infer (tree.child? "value") := by
      rcases @child?_related _ Passes.slot tree (.node tree.label children) below "value" with
        ⟨none, empty⟩ | ⟨first, second, old, new, pair⟩
      · rw [none, empty]
      · rw [old, new, TypeHint.infer, pair.kind, TypeHint.infer]
    rw [Declarations.annotate, Declarations.annotate, hint]
    refine insertAfterMarked_related Passes.slot below ?_ Passes.kind
    exact Passes.flat _ (flat_toNode _ _)
      (show ∀ rule ∈ [functions, loopHeaders], "type_annotation" ∉ rule.kinds by decide)
  next => exact below

theorem undisturbed_imports : Undisturbed [functions, loopHeaders, declarations] imports := by
  intro above tree children member quoted below
  simp only [made, handler, Imports.handler, Imports.handle]
  rcases @child?_related _ Passes.slot tree (.node tree.label children) below "source" with
    ⟨none, empty⟩ | ⟨source, other, old, new, pair⟩
  · rw [none, empty]
    exact below
  · rw [old, new]
    dsimp only
    rw [pair.kind]
    by_cases string : source.kind = "string"
    · have imported : tree.label.kind ∈ Imports.statementKinds := member
      have flat := (((below_iff _).mp quoted) source (mem_of_child? old)).1.string imported
        (slot_of_child? old) string
      have inert : ∀ rule ∈ [functions, loopHeaders, declarations], source.kind ∉ rule.kinds := by
        rw [string]
        decide
      -- The earlier runs have nothing to do in the string, so its specifier is the same.
      obtain rfl := pair.eq_of_flat flat inert
      have stays (quote : Char) (specifier : String) :=
        Passes.flat ((tree.label :: above).take 2)
          (lasting_flat.quoted quote specifier flat) inert
      simp only [string, bne_self_eq_false, Bool.false_eq_true, if_false]
      split
      · exact below
      · split
        · exact below
        · exact replace_related Passes.slot below (stays _ _)
    · have other : (source.kind != "string") = true := by simpa using string
      simp only [other, if_true]
      exact below

theorem undisturbed_markup :
    Undisturbed [functions, loopHeaders, declarations, imports] markup := by
  intro above tree children member quoted below
  rw [made_markup, made_markup]
  exact below

theorem split_inOrder (rule : Rule) : ∃ before after, inOrder = before ++ rule :: after ∧
    rule ∉ before ++ after ∧ Undisturbed before rule := by
  cases rule with
  | functions => exact ⟨[], _, rfl, by decide, undisturbed_functions⟩
  | loopHeaders => exact ⟨[functions], _, rfl, by decide, undisturbed_loopHeaders⟩
  | declarations => exact ⟨[functions, loopHeaders], _, rfl, by decide, undisturbed_declarations⟩
  | imports =>
      exact ⟨[functions, loopHeaders, declarations], _, rfl, by decide, undisturbed_imports⟩
  | markup =>
      exact ⟨[functions, loopHeaders, declarations, imports], _, rfl, by decide, undisturbed_markup⟩

-- The runs in turn over a node are the runs in turn over the children of what the rule for the
-- node's kind makes of it.
theorem Passes.over_made (passes : Passes inOrder above tree final) (inner : tree.isLeaf = false)
    (member : tree.kind ∈ rule.kinds) (quoted : Quoted tree) :
    ∃ finals, final = .node tree.label finals ∧
      List.Forall₂ (Passes inOrder ((tree.label :: above).take 2)) (made rule above tree).children
        finals := by
  obtain ⟨before, after, split, apart, undisturbed⟩ := split_inOrder rule
  have other : ∀ next ∈ before ++ after, tree.kind ∉ next.kinds := by
    intro next present again
    rw [kinds_disjoint again member] at present
    exact apart present
  rw [split] at passes ⊢
  obtain ⟨first, early, second, here, late⟩ := passes.append
  obtain ⟨children, rfl, earlier⟩ := early.below inner fun next present => other next (by simp [present])
  rcases here.cases with ⟨leaf, _⟩ | ⟨_, handled, middles, same, _, rfl, between⟩
  · have leaf : tree.isLeaf = true := leaf
    simp [inner] at leaf
  · obtain rfl := same member
    obtain ⟨finals, rfl, later⟩ := late.below inner fun next present => other next (by simp [present])
    refine ⟨finals, rfl, ?_⟩
    have front := undisturbed above tree children member quoted earlier
    have back : List.Forall₂ (Passes (rule :: after) ((tree.label :: above).take 2))
        (made rule above (.node tree.label children)).children finals :=
      between.comp later fun _ middle _ one rest => ⟨middle, one, rest⟩
    exact front.comp back fun _ _ _ left right => left.trans right

theorem eq_of_passes (runs : Runs (table all) above tree final) (quoted : Quoted tree) {other : Node}
    (passes : Passes inOrder above tree other) : other = final := by
  -- The run of all rules leads: at each node, the single runs come down to the children that it visits.
  induction runs using Runs.induct generalizing other with
  | leaf above tree runs present => exact passes.eq_of_leaf present
  | inner above tree handled finals runs inner makes below =>
      have effect : Effect above tree handled := by
        obtain ⟨session, after, same⟩ := makes
        exact effect_of_applyHandlers same
      obtain ⟨one, none⟩ := made_of_makes_all makes
      have later : ∃ others, other = .node tree.label others ∧
          List.Forall₂ (Passes inOrder ((tree.label :: above).take 2)) handled.children others := by
        by_cases some : ∃ rule : Rule, tree.kind ∈ rule.kinds
        · obtain ⟨rule, member⟩ := some
          rw [one rule member]
          exact passes.over_made inner member quoted
        · have unhandled : ∀ rule : Rule, tree.kind ∉ rule.kinds := by simpa using some
          rw [none unhandled]
          exact passes.below inner fun rule _ => unhandled rule
      obtain ⟨others, rfl, pairs⟩ := later
      have kept := (below_iff _).mp (below_of_effect lasting_flat effect quoted)
      rw [effect.label] at below
      have same : List.Forall₂ Eq others finals := pairs.right_unique below
        fun child member left right passes ⟨_, ih⟩ => ih (kept child member).2 passes
      rw [List.forall₂_eq_eq_eq] at same
      rw [same, effect.label]

def walkInTurn (start : Rule → Session) : List Rule → Outcome Session → Outcome Session
  | [], outcome => outcome
  | rule :: rest, outcome =>
      match outcome.fault with
      | some _ => outcome
      | none => walkInTurn start rest (walk [rule] outcome.tree (start rule))

theorem passes_of_walkInTurn {start : Rule → Session} {outcome : Outcome Session}
    (complete : (walkInTurn start rules outcome).fault = none) :
    outcome.fault = none ∧ Passes rules [] outcome.tree (walkInTurn start rules outcome).tree := by
  induction rules generalizing outcome with
  | nil => exact ⟨complete, rfl⟩
  | cons rule rest ih =>
      rw [walkInTurn] at complete ⊢
      cases fault : outcome.fault with
      | some fault => simp [fault] at complete
      | none =>
          simp only [fault] at complete ⊢
          obtain ⟨first, later⟩ := ih complete
          exact ⟨trivial, _, runs_of_walk (stepBudget outcome.tree) outcome.tree (start rule) first,
            later⟩

theorem walkInTurn_last {start : Rule → Session} {outcome : Outcome Session} (rules : List Rule)
    (last : Rule) (complete : (walkInTurn start (rules ++ [last]) outcome).fault = none) :
    walkInTurn start (rules ++ [last]) outcome =
      walk [last] (walkInTurn start rules outcome).tree (start last) := by
  induction rules generalizing outcome with
  | nil =>
      rw [List.nil_append, walkInTurn] at complete ⊢
      cases fault : outcome.fault with
      | some fault => simp [fault] at complete
      | none => simp [walkInTurn]
  | cons rule rest ih =>
      rw [List.cons_append, walkInTurn] at complete ⊢
      rw [walkInTurn]
      cases fault : outcome.fault with
      | some fault => simp [fault] at complete
      | none =>
          simp only [fault] at complete ⊢
          exact ih complete

def FlatSources (tree : Node) : Prop :=
  ∀ part ∈ tree.subtrees, part.kind = "import_statement" ∨ part.kind = "export_statement" →
    ∀ source ∈ part.children, source.slot = some "source" → source.kind = "string" →
      source.isLeaf = false ∧ ∀ child ∈ source.children, child.isLeaf = true

theorem FlatSources.quoted (flat : FlatSources tree) : Quoted tree :=
  below_of_parts fun part member child below =>
    ⟨fun _ _ _ => trivial, fun imported =>
      flat part member (Imports.mem_statementKinds.mp imported) child below⟩

/-- A completed run of all rules leaves the same tree as completed runs of the single rules in turn, and
the detectors agree. -/
theorem walk_eq_walkInTurn (tree : Node) (session : Session) (start : Rule → Session)
    (flat : FlatSources tree) (complete : (walk all tree session).fault = none)
    (each : (walkInTurn start inOrder ⟨tree, session, none⟩).fault = none)
    (unmarked : session.marked = []) (fresh : (start markup).marked = []) :
    (walkInTurn start inOrder ⟨tree, session, none⟩).tree = (walk all tree session).tree ∧
      findings (walkInTurn start inOrder ⟨tree, session, none⟩).state [markup] =
        findings (walk all tree session).state all := by
  have same : (walkInTurn start inOrder ⟨tree, session, none⟩).tree = (walk all tree session).tree :=
    eq_of_passes (runs_of_walk (stepBudget tree) tree session complete) flat.quoted
      (passes_of_walkInTurn each).2
  refine ⟨same, ?_⟩
  have last := walkInTurn_last [functions, loopHeaders, declarations, imports] markup each
  have apart : (walkInTurn start inOrder ⟨tree, session, none⟩).state.hasFound 0 =
      (walkInTurn start inOrder ⟨tree, session, none⟩).tree.inners.any isMarkup := by
    change walkInTurn start inOrder _ = _ at last
    rw [last] at each ⊢
    rw [hasFound_of_walk (by decide) each]
    simp [Session.hasFound, fresh]
  have together : (walk all tree session).state.hasFound 4 =
      (walk all tree session).tree.inners.any isMarkup := by
    rw [hasFound_of_walk (by decide) complete]
    simp [Session.hasFound, unmarked]
  have one (session : Session) : findings session [markup] = [session.hasFound 0] := rfl
  have five (session : Session) : findings session all = [session.hasFound 4] := rfl
  rw [one, five, apart, together, same]

def layeredModule : Node :=
  .branch "program"
    [.branch "import_statement"
      [.mark "import" "",
       .branch "string"
        [.mark "'" " ", .leaf "string_fragment" "./a.jsx" "" none, .mark "'" ""] (some "source"),
       .mark ";" ""] none,
     .branch "lexical_declaration"
      [.leaf "const" "const" "\n" (some "kind"),
       .branch "variable_declarator"
        [.leaf "identifier" "f" " " (some "name"),
         .mark "=" " ",
         .branch "arrow_function"
          [.branch "object_pattern"
            [.mark "\x7b" " ",
             .leaf "shorthand_property_identifier_pattern" "a" "" none,
             .mark "\x7d" ""] (some "parameter"),
           .mark "=>" " ",
           .leaf "identifier" "a" " " (some "body")] (some "value")] none,
       .mark ";" ""] none,
     .branch "for_in_statement"
      [.mark "for" "\n",
       .mark "(" " ",
       .branch "lexical_declaration"
        [.leaf "const" "const" "" (some "kind"),
         .branch "variable_declarator"
          [.leaf "identifier" "x" " " (some "name"),
           TypeHint.unknown.toNode (some "type")] none] (some "left"),
       .leaf "of" "of" " " (some "operator"),
       .branch "jsx_self_closing_element"
        [.mark "<" " ", .leaf "identifier" "b" "" (some "name"), .mark "/>" ""] (some "right"),
       .mark ")" "",
       .branch "statement_block" [.mark "\x7b" " ", .mark "\x7d" ""] (some "body")] none] none

theorem layeredModule_inTurn :
    (FlatSources layeredModule ∧ (walk all layeredModule (.start .empty)).fault = none ∧
      (walkInTurn (fun _ => .start .empty) inOrder ⟨layeredModule, .start .empty, none⟩).fault = none) ∧
    (walkInTurn (fun _ => .start .empty) inOrder ⟨layeredModule, .start .empty, none⟩).tree =
      (walk all layeredModule (.start .empty)).tree ∧
    findings (walk all layeredModule (.start .empty)).state all = [true] := by
  have flat : FlatSources layeredModule := by
    unfold FlatSources
    decide
  have complete : (walk all layeredModule (.start .empty)).fault = none := by decide +kernel
  have each : (walkInTurn (fun _ => .start .empty) inOrder
      ⟨layeredModule, .start .empty, none⟩).fault = none := by decide +kernel
  have same := walk_eq_walkInTurn layeredModule (.start .empty) (fun _ => .start .empty) flat complete
    each rfl rfl
  exact ⟨⟨flat, complete, each⟩, same.1, by decide +kernel⟩

end ScriptTyping.Rule
