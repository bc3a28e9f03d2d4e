import ScriptTyping.Proofs.Rule.Budget
import ScriptTyping.Proofs.Rule.Declarators
import ScriptTyping.Proofs.Rule.Idempotence
import ScriptTyping.Proofs.Rule.Pass
import ScriptTyping.Proofs.Rule.Shape
import ScriptTyping.Proofs.Walk.Reach

set_option autoImplicit false

namespace ScriptTyping

open ScriptTyping.Tree

namespace Rule

def once (rules : List Rule) : List Rule := all.filter fun rule => rules.contains rule

variable {rule : Rule} {rules others : List Rule} {above : List Label} {tree handled final : Node}

theorem mem_once (rules : List Rule) (rule : Rule) : rule ∈ once rules ↔ rule ∈ rules := by
  have among : rule ∈ all := by cases rule <;> decide
  simp [once, among]

theorem count_once_le (rules : List Rule) (rule : Rule) : (once rules).count rule ≤ 1 := by
  have distinct : all.Nodup := by decide
  exact List.nodup_iff_count_le_one.mp (distinct.filter _) rule

theorem bare_strip {child stripped : Node} (single : Single child)
    (strip : LoopHeaders.strip child = some stripped) :
    stripped.kind ≠ "type_annotation" ∧ (LoopHeaders.isDeclaration stripped = true →
      ∀ declarator ∈ stripped.children, declarator.kind = "variable_declarator" →
        declarator.hasChild "type" = false) := by
  have kinds : stripped.kind = child.kind := congrArg Label.kind (LoopHeaders.label_strip strip)
  unfold LoopHeaders.strip at strip
  split at strip
  next => cases strip
  next other =>
    refine ⟨by simpa [LoopHeaders.isTypeHint, kinds] using other, fun declares => ?_⟩
    have declares' : LoopHeaders.isDeclaration child = true := by
      simpa [LoopHeaders.isDeclaration, kinds] using declares
    rw [if_pos declares'] at strip
    cases strip
    intro declarator member kind
    obtain ⟨source, given, rfl⟩ := List.mem_map.mp member
    have kind' : source.kind = "variable_declarator" := by
      rwa [Tree.kind, LoopHeaders.label_stripDeclarator] at kind
    have isDeclarator : LoopHeaders.isDeclarator source = true := by
      simpa [LoopHeaders.isDeclarator] using kind'
    by_contra typed
    rw [LoopHeaders.stripDeclarator, if_pos isDeclarator] at typed
    have several := LoopHeaders.two_types (by simpa using typed)
    have few := single.child given source (self_mem_subtrees source) kind'
    omega

theorem calm_signed {started list bound result : Node} {canLower : Bool}
    {children bindings : List Node} (kind : result.kind ∈ Functions.kinds)
    (present : started.child? "parameters" = some list)
    (annotates : Functions.Annotates canLower list.children children bindings)
    (binds : Functions.withBindings? bindings (Functions.listed started list children) = some bound)
    (results : Functions.Resulted bound result) : Calm above result := by
  have listed := Functions.signed_list present binds results
  refine calm_function kind (fun _ => hasChild_of_child? listed) ?_ fun _ => ?_
  · intro found shown parameter member parameterKind pattern given
    rw [listed] at shown
    cases shown
    exact (Functions.annotates_typed annotates member parameterKind given).1
  · have present' : bound.child? "parameters" = some (list.withChildren children) := by
      rw [Functions.child?_bound binds (by decide), Functions.child?_list present]
    rcases Functions.hasChild_resulted results present' with typed | ⟨rfl, barred⟩
    · exact .inl typed
    · exact .inr barred

theorem calm_of_effect (effect : Effect above tree handled) (single : Single tree)
    (other : tree.kind ∉ Imports.statementKinds) : Calm above handled := by
  cases effect with
  | untouched kind => exact calm_other kind
  | declared kind done => exact calm_declarator kind done
  | annotated kind name free outside =>
      obtain ⟨found, present⟩ := child?_of_hasChild name
      refine calm_declarator kind fun _ => .inl ?_
      exact (hasChild_iff _ _).mpr ⟨_, self_mem_insertAfterMarked _ present, rfl⟩
  | iterated kind plain => exact calm_iteration kind fun declares => by simp [plain] at declares
  | sanitized kind declares =>
      refine calm_iteration kind fun _ child member => ?_
      rw [LoopHeaders.header_sanitize] at member
      obtain ⟨old, present, strip⟩ := List.mem_filterMap.mp member
      exact bare_strip (single.child ((List.takeWhile_sublist _).subset present)) strip
  | unlisted kind none =>
      obtain ⟨list, bare⟩ := Functions.withParameters?_none none
      refine calm_function kind (by simp [bare]) (fun found shown => ?_) (by simp [list])
      simp [hasChild_of_child? shown] at list
  | signed kind start list annotates binds results =>
      have label := (Functions.label_resulted results).trans (Functions.label_bound start binds)
      exact calm_signed (by rwa [Tree.kind, label]) list annotates binds results
  | imported kind | shortened kind => exact absurd (Imports.mem_statementKinds.mpr kind) other

-- At its place in any table, the rule leaves the node as it is.
def LeftAlone (rule : Rule) (above : List Label) (tree : Node) : Prop :=
  ∀ number session, ∃ after,
    (rule.handler number).handle above tree session = ⟨tree, after, none⟩

theorem handle_always {number : Nat} {session after : Session}
    (complete : (rule.handler number).handle above tree session = ⟨handled, after, none⟩)
    (other : Nat) (again : Session) : ∃ after,
      (rule.handler other).handle above tree again = ⟨handled, after, none⟩ := by
  obtain ⟨same, stopped⟩ := handle_heedless rule number other above tree session again
  rw [complete] at same stopped
  generalize (rule.handler other).handle above tree again = outcome at same stopped
  obtain ⟨made, after, fault⟩ := outcome
  cases same
  cases stopped
  exact ⟨after, rfl⟩

theorem leftAlone_of_calm (member : tree.kind ∈ rule.kinds) (calm : Calm above tree) :
    rule.LeftAlone above tree := by
  intro number session
  obtain ⟨place, handlers⟩ := handlersFor_all member
  obtain ⟨after, _, same⟩ := calm session
  rw [handlers, applyHandlers_one] at same
  exact handle_always same number session

theorem leftAlone_of_handle {number : Nat} {session after : Session} (member : tree.kind ∈ rule.kinds)
    (other : rule ≠ imports) (single : Single tree)
    (complete : (rule.handler number).handle above tree session = ⟨handled, after, none⟩) :
    rule.LeftAlone above handled := by
  have effect := effect_of_handler (by rwa [kinds_handler]) complete
  have apart : tree.kind ∉ Imports.statementKinds := fun imported =>
    other (@kinds_disjoint _ imports _ member imported)
  refine leftAlone_of_calm ?_ (calm_of_effect effect single apart)
  rwa [Tree.kind, effect.label]

theorem applyHandlers_leftAlone (alone : rule.LeftAlone above tree) (numbers : List Nat)
    (session : Session) : ∃ after,
      applyHandlers above (numbers.map fun number => rule.handler number) tree session =
        ⟨tree, after, none⟩ := by
  induction numbers generalizing session with
  | nil => exact ⟨session, rfl⟩
  | cons number rest ih =>
      obtain ⟨middle, here⟩ := alone number session
      obtain ⟨after, later⟩ := ih middle
      refine ⟨after, ?_⟩
      rw [List.map_cons, applyHandlers]
      simp only [here]
      exact later

theorem handlersFor_tableFrom {kind : String} (member : kind ∈ rule.kinds) (number : Nat)
    (rules : List Rule) : ∃ numbers : List Nat, numbers.length = rules.count rule ∧
      (tableFrom number rules).handlersFor kind = numbers.map fun number => rule.handler number := by
  induction rules generalizing number with
  | nil => exact ⟨[], rfl, rfl⟩
  | cons first rest ih =>
      obtain ⟨numbers, length, handlers⟩ := ih (number + 1)
      unfold HandlerTable.handlersFor at handlers ⊢
      by_cases same : first = rule
      · subst same
        have called : (first.handler number).kinds.contains kind = true := by
          simpa [kinds_handler] using member
        refine ⟨number :: numbers, by simp [length], ?_⟩
        rw [tableFrom, List.filter_cons, if_pos called, handlers, List.map_cons]
      · have passed : ¬ (first.handler number).kinds.contains kind = true := by
          rw [kinds_handler]
          simpa using fun other => same (kinds_disjoint other member)
        refine ⟨numbers, by simp [length, same], ?_⟩
        rw [tableFrom, List.filter_cons, if_neg passed, handlers]

theorem handlersFor_none {kind : String} (other : ∀ rule ∈ rules, kind ∉ rule.kinds) :
    (table rules).handlersFor kind = [] := by
  unfold table
  generalize 0 = number
  induction rules generalizing number with
  | nil => rfl
  | cons first rest ih =>
      have later := ih (fun rule member => other rule (by simp [member])) (number + 1)
      unfold HandlerTable.handlersFor at later ⊢
      have passed : ¬ (first.handler number).kinds.contains kind = true := by
        rw [kinds_handler]
        simpa using other first (by simp)
      rw [tableFrom, List.filter_cons, if_neg passed, later]

theorem makes_iff_handle (present : rule ∈ rules) (few : rules.count imports ≤ 1)
    (member : tree.kind ∈ rule.kinds) (single : Single tree) :
    Makes (table rules) above tree handled ↔ ∃ session after,
      (rule.handler 0).handle above tree session = ⟨handled, after, none⟩ := by
  obtain ⟨numbers, length, handlers⟩ := handlersFor_tableFrom member 0 rules
  obtain _ | ⟨first, rest⟩ := numbers
  · have positive := List.count_pos_iff.mpr present
    simp [← length] at positive
  have repeated {made : Node} {session middle : Session}
      (here : (rule.handler first).handle above tree session = ⟨made, middle, none⟩) :
      ∃ after, applyHandlers above (rest.map fun number => rule.handler number) made middle =
        ⟨made, after, none⟩ := by
    by_cases imported : rule = imports
    · subst imported
      have last : rest = [] := List.length_eq_zero_iff.mp (by simp at length; omega)
      exact ⟨middle, by rw [last]; rfl⟩
    · exact applyHandlers_leftAlone (leftAlone_of_handle member imported single here) rest middle
  unfold Makes
  rw [table, handlers, List.map_cons]
  constructor
  · rintro ⟨session, after, same⟩
    rw [applyHandlers] at same
    generalize here : (rule.handler first).handle above tree session = outcome at same
    obtain ⟨made, middle, fault⟩ := outcome
    cases fault with
    | some fault => cases same
    | none =>
        obtain ⟨last, later⟩ := repeated here
        simp only [later] at same
        cases same
        obtain ⟨after, start⟩ := handle_always here 0 session
        exact ⟨session, after, start⟩
  · rintro ⟨session, middle, here⟩
    obtain ⟨middle, begun⟩ := handle_always here first session
    obtain ⟨after, later⟩ := repeated begun
    exact ⟨session, after, by simp only [applyHandlers, begun, later]⟩

theorem makes_of_members (same : ∀ rule, rule ∈ rules ↔ rule ∈ others)
    (few : rules.count imports ≤ 1) (few' : others.count imports ≤ 1) (single : Single tree)
    (makes : Makes (table rules) above tree handled) : Makes (table others) above tree handled := by
  by_cases called : ∃ rule ∈ rules, tree.kind ∈ rule.kinds
  · obtain ⟨rule, present, member⟩ := called
    rw [makes_iff_handle present few member single] at makes
    rwa [makes_iff_handle ((same rule).mp present) few' member single]
  · have other : ∀ rule ∈ rules, tree.kind ∉ rule.kinds := fun rule present member =>
      called ⟨rule, present, member⟩
    rw [makes.eq_of_unhandled (handlersFor_none other)]
    exact .of_unhandled (handlersFor_none fun rule present => other rule ((same rule).mpr present))
      (.start .empty)

theorem single_of_makes (few : rules.count imports ≤ 1) (single : Single tree)
    (makes : Makes (table rules) above tree handled) : ∀ child ∈ handled.children, Single child := by
  by_cases called : ∃ rule ∈ rules, tree.kind ∈ rule.kinds
  · obtain ⟨rule, present, member⟩ := called
    obtain ⟨session, after, here⟩ := (makes_iff_handle present few member single).mp makes
    exact stable_single.of_effect (effect_of_handler member here) single
  · rw [makes.eq_of_unhandled (handlersFor_none fun rule present member =>
      called ⟨rule, present, member⟩)]
    exact fun child member => single.child member

theorem runs_of_members (same : ∀ rule, rule ∈ rules ↔ rule ∈ others)
    (few : rules.count imports ≤ 1) (few' : others.count imports ≤ 1)
    (run : Runs (table rules) above tree final) (single : Single tree) :
    Runs (table others) above tree final := by
  induction run using Runs.induct with
  | leaf above tree _ leaf => exact .leaf (.start .empty) leaf
  | inner above tree handled finals _ inner makes below =>
      refine .inner (heedless_table others) inner (makes_of_members same few few' single makes) ?_
      have each := single_of_makes few single makes
      exact ((List.forall₂_and_left _ _).mpr ⟨each, below⟩).imp
        fun child final ⟨single, _, later⟩ => later single

theorem walk_of_runs (run : Runs (table rules) [] tree final) (session : Session) :
    (walk rules tree session).fault = none ∧ (walk rules tree session).tree = final := by
  obtain ⟨after, visits⟩ := run.always (heedless_table rules) session
  have same := walk_of_visits visits (walk_never_out_of_steps rules tree session)
  change walk rules tree session = _ at same
  rw [same]
  exact ⟨rfl, rfl⟩

/-- Where a walk with a list of rules is complete, the walk with each of these rules once, in the order of
a conversion, is complete too and leaves the same tree. -/
theorem walk_once (rules : List Rule) (tree : Node) (session again : Session) (single : Single tree)
    (few : rules.count imports ≤ 1) (complete : (walk rules tree session).fault = none) :
    (walk (once rules) tree again).fault = none ∧
      (walk (once rules) tree again).tree = (walk rules tree session).tree := by
  have run := runs_of_walk (stepBudget tree) tree session complete
  exact walk_of_runs (runs_of_members (fun rule => (mem_once rules rule).symm) few
    (count_once_le rules imports) run single) again

def crowdedModule : Node :=
  .branch "program"
    [.branch "for_in_statement"
      [.mark "for" "",
       .mark "(" " ",
       .branch "lexical_declaration"
        [.leaf "const" "const" "" (some "kind"),
         .branch "variable_declarator"
          [.leaf "identifier" "x" " " (some "name"),
           TypeHint.unknown.toNode (some "type")] none] (some "left"),
       .leaf "of" "of" " " (some "operator"),
       .leaf "identifier" "xs" " " (some "right"),
       .mark ")" "",
       .branch "lexical_declaration"
        [.leaf "let" "let" " " (some "kind"),
         .branch "variable_declarator"
          [.leaf "identifier" "f" " " (some "name"),
           .mark "=" " ",
           .branch "arrow_function"
            [.branch "array_pattern"
              [.mark "[" " ", .leaf "identifier" "a" "" none, .mark "]" ""] (some "parameter"),
             .mark "=>" " ",
             .leaf "identifier" "a" " " (some "body")] (some "value")] none,
         .mark ";" ""] (some "body")] none,
     .branch "export_statement"
      [.mark "export" "\n",
       .mark "*" " ",
       .leaf "from" "from" " " none,
       .branch "string"
        [.mark "'" " ", .leaf "string_fragment" "./a.js.js" "" none, .mark "'" ""] (some "source"),
       .mark ";" ""] none] none

theorem crowdedModule_once :
    (Single crowdedModule ∧
      [functions, declarations, imports, functions, loopHeaders, declarations, loopHeaders].count
        imports ≤ 1 ∧
      (walk [functions, declarations, imports, functions, loopHeaders, declarations, loopHeaders]
        crowdedModule (.start .empty)).fault = none) ∧
    (walk [declarations, loopHeaders, functions, imports] crowdedModule (.start .empty)).tree =
      (walk [functions, declarations, imports, functions, loopHeaders, declarations, loopHeaders]
        crowdedModule (.start .empty)).tree := by
  have single : Single crowdedModule := by
    unfold Single
    decide
  have complete : (walk
      [functions, declarations, imports, functions, loopHeaders, declarations, loopHeaders]
      crowdedModule (.start .empty)).fault = none := by decide +kernel
  exact ⟨⟨single, by decide, complete⟩,
    (walk_once _ crowdedModule _ (.start .empty) single (by decide) complete).2⟩

end Rule

end ScriptTyping
