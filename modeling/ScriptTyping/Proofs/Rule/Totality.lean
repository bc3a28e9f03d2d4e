import ScriptTyping.Proofs.Node.Source
import ScriptTyping.Proofs.Pairs
import ScriptTyping.Proofs.Rule.Budget
import ScriptTyping.Proofs.Rule.Shape
import ScriptTyping.Proofs.Walk.Safety

set_option autoImplicit false

namespace ScriptTyping

open ScriptTyping.Tree

namespace Bindings

theorem insertAfterBrace?_of_mem (statements : List Node) {children : List Node}
    (opened : ∃ brace ∈ children, brace.kind = "\x7b") :
    ∃ inserted, insertAfterBrace? statements children = some inserted := by
  induction children with
  | nil => simp at opened
  | cons child rest ih =>
      rw [insertAfterBrace?]
      by_cases opening : child.kind = "\x7b"
      · exact ⟨_, if_pos (by simpa using opening)⟩
      · obtain ⟨brace, member, kind⟩ := opened
        have later : brace ∈ rest := by
          rcases List.mem_cons.mp member with rfl | later
          · exact absurd kind opening
          · exact later
        obtain ⟨inserted, found⟩ := ih ⟨brace, later, kind⟩
        exact ⟨child :: inserted, by simp [opening, found]⟩

theorem prepend?_asBlock {body : Node} (statements : List Node)
    (opened : body.kind = blockKind → ∃ brace ∈ body.children, brace.kind = "\x7b") :
    ∃ block, prepend? (asBlock body) statements = some block := by
  have brace : ∃ brace ∈ (asBlock body).children, brace.kind = "\x7b" := by
    unfold asBlock
    split
    next block => exact opened (by simpa using block)
    next => exact ⟨mark "\x7b" body.trivia, by simp [returning, branch], rfl⟩
  obtain ⟨inserted, found⟩ := insertAfterBrace?_of_mem statements brace
  exact ⟨(asBlock body).withChildren inserted, by simp [prepend?, found]⟩

end Bindings

namespace Rule

def Opened (block : Node) : Prop := ∃ brace ∈ block.children, brace.kind = "\x7b"

def Printed (string : Node) : Prop := string.sourceText ≠ ""

variable {tree : Node}

theorem printed_iff (string : Node) : Printed string ↔ string.sourceText.length ≠ 0 := by
  rw [Printed, ne_eq, ne_eq, String.length_eq_zero_iff]

theorem printed_quoted {string : Node} (printed : Printed string) (quote : Char)
    (specifier : String) :
    Printed (string.withChildren (Imports.quotedTokens string.trivia quote specifier)) := by
  obtain ⟨label, children⟩ := string
  cases leaf : label.isLeaf with
  | true =>
      obtain ⟨token, content⟩ := Option.isSome_iff_exists.mp leaf
      have same : ((node label children).withChildren (Imports.quotedTokens
          (node label children).trivia quote specifier)).sourceText =
          (node label children).sourceText := by
        simp [withChildren, sourceText, trivia, firstLeaf?_eq, leaves_leaf label _ leaf,
          text_leaf label _ token content]
      rwa [Printed, same]
  | false =>
      have member : (mark quote.toString "").label ∈ ((node label children).withChildren
          (Imports.quotedTokens (node label children).trivia quote specifier)).leaves := by
        rw [withChildren, label_node, leaves_branch label _ leaf]
        simp [Imports.quotedTokens]
      have token : (mark quote.toString "").label.token = some quote.toString := rfl
      obtain ⟨front, back, split⟩ := sourceText_around_leaf _ member token
      intro empty
      rw [empty] at split
      simp at split

theorem lasting_shape : Lasting Opened Printed where
  block_lead lead opened := by
    obtain ⟨brace, member, kind⟩ := opened
    obtain ⟨other, present, same⟩ := (children_withTrivia lead _).exists_of_mem_left member
    refine ⟨other, present, ?_⟩
    rcases same with rfl | rfl <;> simpa using kind
  string_lead lead printed := by
    rw [printed_iff, length_sourceText_withTrivia, ← printed_iff]
    exact printed
  opened opened := opened
  quoted quote specifier printed := printed_quoted printed quote specifier

abbrev Admissible (tree : Node) : Prop := Below (Formed Opened Printed) tree

theorem withBindings?_of_admissible {started list : Node} {children bindings : List Node}
    (kind : tree.kind ∈ Functions.kinds) (admissible : Admissible tree)
    (start : Functions.withParameters? tree = some started)
    (present : started.child? "parameters" = some list)
    (annotates : Functions.Annotates (started.hasChild "body") list.children children bindings) :
    ∃ bound, Functions.withBindings? bindings (Functions.listed started list children) =
      some bound := by
  cases bindings with
  | nil => exact ⟨_, rfl⟩
  | cons binding rest =>
      obtain ⟨child, pattern, _, change⟩ := annotates.lowered_of_ne_nil (by simp)
      obtain ⟨_, _, _, _, canLower⟩ := Functions.changeOf_lower change
      obtain ⟨body, found⟩ := child?_of_hasChild canLower
      have shown := found
      rw [Functions.child?_started_other start (by decide) (by decide)] at shown
      have formed := ((below_iff _).mp admissible body (mem_of_child? shown)).1
      obtain ⟨block, prepended⟩ := Bindings.prepend?_asBlock (binding :: rest)
        (formed.block kind (slot_of_child? shown))
      rw [← Functions.child?_listed present children (by decide)] at found
      simp only [Functions.withBindings?, found, prepended, Option.map_some]
      exact ⟨_, rfl⟩

theorem functions_completes (above : List Label) (session : Session)
    (kind : tree.kind ∈ Functions.kinds) (admissible : Admissible tree) :
    (Functions.handle above tree session).fault = none := by
  unfold Functions.handle
  cases start : Functions.withParameters? tree with
  | none => rfl
  | some started =>
      obtain ⟨list, present⟩ := Functions.child?_started start
      have annotates := Functions.annotates_annotateParameters
        (Functions.takenNames started list) (started.hasChild "body") list.children 0 session
      obtain ⟨bound, binds⟩ := withBindings?_of_admissible kind admissible start present annotates
      rw [Functions.listed] at binds
      simp only [present, binds]

theorem imports_completes (above : List Label) (session : Session)
    (kind : tree.kind ∈ Imports.statementKinds) (admissible : Admissible tree) :
    (Imports.handle above tree session).fault = none := by
  unfold Imports.handle
  cases present : tree.child? "source" with
  | none => rfl
  | some source =>
      by_cases string : source.kind = "string"
      · have formed := ((below_iff _).mp admissible source (mem_of_child? present)).1
        have printed := formed.string kind (slot_of_child? present) string
        cases text : source.sourceText.toList with
        | nil => exact absurd (String.toList_eq_nil_iff.mp text) printed
        | cons quote quoted =>
            simp only [string, bne_self_eq_false, Bool.false_eq_true, if_false, text]
            split <;> rfl
      · simp [string]

theorem handler_completes (rule : Rule) (number : Nat) (above : List Label) (session : Session)
    (kind : tree.kind ∈ (rule.handler number).kinds) (admissible : Admissible tree) :
    ((rule.handler number).handle above tree session).fault = none := by
  cases rule with
  | declarations =>
      simp only [handler, Declarations.handler, Declarations.handle]
      repeat' split
      all_goals rfl
  | loopHeaders =>
      simp only [handler, LoopHeaders.handler, LoopHeaders.handle]
      repeat' split
      all_goals rfl
  | functions => exact functions_completes above session kind admissible
  | imports => exact imports_completes above session kind admissible
  | markup =>
      simp only [handler, Markup.handler, Markup.handle]
      split <;> rfl

theorem safe_table (rules : List Rule) : Safe (table rules) Admissible where
  below tree admissible child member := ((below_iff tree).mp admissible child member).2
  keeps handler member above tree session kind admissible := by
    obtain ⟨rule, number, rfl⟩ := mem_tableFrom member
    have complete := handler_completes rule number above session kind admissible
    generalize same : (rule.handler number).handle above tree session = outcome at complete ⊢
    obtain ⟨handled, after, fault⟩ := outcome
    subst complete
    have effect := effect_of_handler kind same
    exact ⟨rfl, congrArg Label.kind effect.label, below_of_effect lasting_shape effect admissible⟩

-- Every block that is the body of a function has an opening brace, and every string that is the
-- source of an import or export prints something.
structure Convertible (tree : Node) : Prop where
  opened : ∀ part ∈ tree.subtrees, part.kind ∈ Functions.kinds → ∀ body ∈ part.children,
    body.slot = some "body" → body.kind = Bindings.blockKind →
      ∃ brace ∈ body.children, brace.kind = "\x7b"
  printed : ∀ part ∈ tree.subtrees, part.kind = "import_statement" ∨ part.kind = "export_statement" →
    ∀ source ∈ part.children, source.slot = some "source" → source.kind = "string" →
      source.sourceText ≠ ""

theorem Convertible.admissible (convertible : Convertible tree) : Admissible tree := by
  refine below_of_parts fun part member child below => ⟨fun function => ?_, fun imported => ?_⟩
  · exact convertible.opened part member function child below
  · exact convertible.printed part member (Imports.mem_statementKinds.mp imported) child below

/-- A run of any rules, in any order, on a convertible tree is complete: it ends, and no rule stops
it. -/
theorem walk_total (rules : List Rule) (tree : Node) (session : Session)
    (convertible : Convertible tree) : (walk rules tree session).fault = none := by
  rcases (safe_table rules).walk_safe (stepBudget tree) convertible.admissible session with
    complete | exhausted
  · exact complete
  · exact absurd exhausted (walk_never_out_of_steps rules tree session)

def nestedPatterns : Node :=
  .branch "program"
    [.branch "function_declaration"
      [.mark "function" "",
       .leaf "identifier" "f" " " (some "name"),
       .branch "formal_parameters"
        [.mark "(" "",
         .branch "required_parameter"
          [.branch "object_pattern"
            [.mark "\x7b" "",
             .branch "object_assignment_pattern"
              [.leaf "shorthand_property_identifier_pattern" "g" "" (some "left"),
               .mark "=" " ",
               .branch "arrow_function"
                [.branch "formal_parameters"
                  [.mark "(" " ",
                   .branch "required_parameter"
                    [.branch "object_pattern"
                      [.mark "\x7b" "",
                       .leaf "shorthand_property_identifier_pattern" "a" "" none,
                       .mark "\x7d" ""] (some "pattern")] none,
                   .mark ")" ""] (some "parameters"),
                 .mark "=>" " ",
                 .leaf "identifier" "a" " " (some "body")] (some "right")] none,
             .mark "\x7d" ""] (some "pattern")] none,
         .mark ")" ""] (some "parameters"),
       .branch "statement_block" [.mark "\x7b" " ", .mark "\x7d" ""] (some "body")] none,
     .branch "import_statement"
      [.mark "import" "\n",
       .branch "string"
        [.mark "'" " ", .leaf "string_fragment" "./a.js" "" none, .mark "'" ""] (some "source"),
       .mark ";" ""] none] none

theorem nestedPatterns_converted : Convertible nestedPatterns ∧
    (walk all.reverse nestedPatterns (.start .empty)).fault = none := by
  have convertible : Convertible nestedPatterns := ⟨by decide, by decide +kernel⟩
  exact ⟨convertible, walk_total _ _ _ convertible⟩

end Rule

end ScriptTyping
