import ScriptTyping.Proofs.Pairs
import ScriptTyping.Proofs.Rule.Converts
import ScriptTyping.Proofs.Walk.Heedless

set_option autoImplicit false

namespace ScriptTyping

namespace Functions

theorem annotateParameters_heedless (taken : List String) (canLower : Bool) (children : List Node)
    (number : Nat) (first second : Session) :
    (annotateParameters taken canLower children number first).children =
        (annotateParameters taken canLower children number second).children ∧
      (annotateParameters taken canLower children number first).bindings =
        (annotateParameters taken canLower children number second).bindings := by
  induction children generalizing number first second with
  | nil => exact ⟨rfl, rfl⟩
  | cons child rest ih =>
      simp only [annotateParameters]
      cases changeOf canLower child with
      | pass => simpa using ih number first second
      | keep => simpa using ih number _ _
      | annotate => simpa using ih number _ _
      | lower pattern => simpa using ih _ _ _

theorem annotateResult_heedless (tree parameters : Node) (first second : Session) :
    (annotateResult tree parameters first).1 = (annotateResult tree parameters second).1 := by
  unfold annotateResult
  split
  · rfl
  · split <;> rfl

theorem handle_heedless (above : List Label) (tree : Node) (first second : Session) :
    (handle above tree first).tree = (handle above tree second).tree ∧
      (handle above tree first).fault = (handle above tree second).fault := by
  unfold handle
  cases withParameters? tree with
  | none => exact ⟨rfl, rfl⟩
  | some started =>
      dsimp only
      cases started.child? "parameters" with
      | none => exact ⟨rfl, rfl⟩
      | some list =>
          dsimp only
          obtain ⟨children, bindings⟩ := annotateParameters_heedless (takenNames started list)
            (started.hasChild "body") list.children 0 first second
          rw [children, bindings]
          split
          · exact ⟨rfl, rfl⟩
          · exact ⟨annotateResult_heedless _ _ _ _, rfl⟩

end Functions

namespace Rule

theorem handle_heedless (rule : Rule) (number other : Nat) (above : List Label) (tree : Node)
    (first second : Session) :
    ((rule.handler number).handle above tree first).tree =
        ((rule.handler other).handle above tree second).tree ∧
      ((rule.handler number).handle above tree first).fault =
        ((rule.handler other).handle above tree second).fault := by
  cases rule with
  | declarations =>
      simp only [handler, Declarations.handler, Declarations.handle]
      cases tree.child? "name" with
      | none => exact ⟨rfl, rfl⟩
      | some name =>
          dsimp only
          split
          · exact ⟨rfl, rfl⟩
          · split <;> exact ⟨rfl, rfl⟩
  | loopHeaders =>
      simp only [handler, LoopHeaders.handler, LoopHeaders.handle]
      split
      · exact ⟨rfl, rfl⟩
      · split <;> exact ⟨rfl, rfl⟩
  | functions => exact Functions.handle_heedless above tree first second
  | imports =>
      simp only [handler, Imports.handler, Imports.handle]
      cases tree.child? "source" with
      | none => exact ⟨rfl, rfl⟩
      | some source =>
          dsimp only
          split
          · exact ⟨rfl, rfl⟩
          · split
            · exact ⟨rfl, rfl⟩
            · split <;> exact ⟨rfl, rfl⟩
  | markup =>
      simp only [handler, Markup.handler, Markup.handle]
      split <;> split <;> exact ⟨rfl, rfl⟩

theorem heedless_table (rules : List Rule) : (table rules).Heedless := by
  intro handler member above tree first second
  obtain ⟨rule, number, rfl⟩ := mem_tableFrom member
  exact handle_heedless rule number number above tree first second

def kinds (rule : Rule) : List String := (rule.handler 0).kinds

theorem kinds_handler (rule : Rule) (number : Nat) : (rule.handler number).kinds = rule.kinds := by
  cases rule <;> rfl

theorem kinds_disjoint {first second : Rule} {kind : String} (left : kind ∈ first.kinds)
    (right : kind ∈ second.kinds) : first = second := by
  revert kind
  cases first <;> cases second <;> decide

def made (rule : Rule) (above : List Label) (tree : Node) : Node :=
  ((rule.handler 0).handle above tree (.start .empty)).tree

variable {rule : Rule} {rules : List Rule} {above : List Label} {tree handled final : Node}

theorem handlersFor_one (rule : Rule) (kind : String) :
    (table [rule]).handlersFor kind = if kind ∈ rule.kinds then [rule.handler 0] else [] := by
  by_cases member : kind ∈ rule.kinds
  · rw [if_pos member]
    unfold kinds at member
    simp [HandlerTable.handlersFor, table, tableFrom, member]
  · rw [if_neg member]
    unfold kinds at member
    simp [HandlerTable.handlersFor, table, tableFrom, member]

theorem handlersFor_all {kind : String} (member : kind ∈ rule.kinds) :
    ∃ number, (table all).handlersFor kind = [rule.handler number] := by
  cases rule with
  | declarations =>
      obtain rfl := List.mem_singleton.mp member
      exact ⟨0, handlersFor_declarator⟩
  | loopHeaders =>
      obtain rfl := List.mem_singleton.mp member
      exact ⟨1, handlersFor_iteration⟩
  | functions => exact ⟨2, handlersFor_function member⟩
  | imports => exact ⟨3, handlersFor_import (by simpa [kinds, handler, Imports.handler] using member)⟩
  | markup =>
      refine ⟨4, ?_⟩
      have among : kind = "jsx_element" ∨ kind = "jsx_self_closing_element" ∨ kind = "jsx_fragment" := by
        simpa [kinds, handler, Markup.handler, Markup.kinds] using member
      rcases among with rfl | rfl | rfl <;> rfl

theorem eq_made {number : Nat} (makes : ∃ session after,
    (rule.handler number).handle above tree session = ⟨handled, after, none⟩) :
    handled = made rule above tree := by
  obtain ⟨session, after, same⟩ := makes
  have equal := (handle_heedless rule number 0 above tree session (.start .empty)).1
  rw [same] at equal
  exact equal

-- In a run of all rules, a node becomes what the one rule for its kind makes of it.
theorem made_of_makes_all (makes : Makes (table all) above tree handled) :
    (∀ rule, tree.kind ∈ rule.kinds → handled = made rule above tree) ∧
      ((∀ rule : Rule, tree.kind ∉ rule.kinds) → handled = tree) := by
  refine ⟨fun rule member => ?_, fun other => ?_⟩
  · obtain ⟨number, handlers⟩ := handlersFor_all member
    obtain ⟨session, after, same⟩ := makes
    rw [handlers, applyHandlers_one] at same
    exact eq_made ⟨session, after, same⟩
  · refine makes.eq_of_unhandled (List.filter_eq_nil_iff.mpr fun handler member => ?_)
    obtain ⟨rule, number, rfl⟩ := mem_tableFrom member
    rw [kinds_handler]
    simpa using other rule

theorem label_of_makes (makes : Makes (table [rule]) above tree handled) :
    handled.label = tree.label := by
  by_cases member : tree.kind ∈ rule.kinds
  · obtain ⟨session, after, same⟩ := makes
    rw [handlersFor_one, if_pos member, applyHandlers_one] at same
    exact (effect_of_handler member same).label
  · rw [makes.eq_of_unhandled (by rw [handlersFor_one, if_neg member])]

abbrev Pass (rule : Rule) : List Label → Node → Node → Prop := Runs (table [rule])

theorem Pass.cases (pass : Pass rule above tree final) :
    (tree.isLeaf = true ∧ final = tree) ∨
      (tree.isLeaf = false ∧ ∃ handled finals,
        (tree.kind ∈ rule.kinds → handled = made rule above tree) ∧
        (tree.kind ∉ rule.kinds → handled = tree) ∧ final = .node tree.label finals ∧
        List.Forall₂ (Pass rule ((tree.label :: above).take 2)) handled.children finals) := by
  rcases Runs.cases pass with leaf | ⟨inner, handled, finals, makes, same, below⟩
  · exact .inl leaf
  · refine .inr ⟨inner, handled, finals, fun member => ?_, fun other => ?_, ?_, ?_⟩
    · obtain ⟨session, after, same⟩ := makes
      rw [handlersFor_one, if_pos member, applyHandlers_one] at same
      exact eq_made ⟨session, after, same⟩
    · exact makes.eq_of_unhandled (by rw [handlersFor_one, if_neg other])
    · rw [same, label_of_makes makes]
    · rwa [label_of_makes makes] at below

theorem Pass.unhandled {finals : List Node} (other : tree.kind ∉ rule.kinds)
    (inner : tree.isLeaf = false)
    (below : List.Forall₂ (Pass rule ((tree.label :: above).take 2)) tree.children finals) :
    Pass rule above tree (.node tree.label finals) := by
  refine Runs.inner (heedless_table [rule]) inner ?_ below
  exact .of_unhandled (by rw [handlersFor_one, if_neg other]) (.start .empty)

theorem Pass.label (pass : Pass rule above tree final) : final.label = tree.label := by
  rcases pass.cases with ⟨_, rfl⟩ | ⟨_, _, _, _, _, rfl, _⟩ <;> rfl

def Passes : List Rule → List Label → Node → Node → Prop
  | [], _, tree, final => final = tree
  | rule :: rest, above, tree, final =>
      ∃ middle, Pass rule above tree middle ∧ Passes rest above middle final

namespace Passes

theorem label (passes : Passes rules above tree final) : final.label = tree.label := by
  induction rules generalizing tree with
  | nil => rw [show final = tree from passes]
  | cons rule rest ih =>
      obtain ⟨middle, first, later⟩ := passes
      exact (ih later).trans first.label

theorem kind (passes : Passes rules above tree final) : final.kind = tree.kind :=
  congrArg Label.kind passes.label

theorem slot (passes : Passes rules above tree final) : final.slot = tree.slot :=
  congrArg Label.slot passes.label

theorem append {first second : List Rule} (passes : Passes (first ++ second) above tree final) :
    ∃ middle, Passes first above tree middle ∧ Passes second above middle final := by
  induction first generalizing tree with
  | nil => exact ⟨tree, rfl, passes⟩
  | cons rule rest ih =>
      obtain ⟨next, here, later⟩ := passes
      obtain ⟨middle, before, after⟩ := ih later
      exact ⟨middle, ⟨next, here, before⟩, after⟩

theorem trans {first second : List Rule} {middle : Node} (before : Passes first above tree middle)
    (after : Passes second above middle final) : Passes (first ++ second) above tree final := by
  induction first generalizing tree with
  | nil =>
      rw [show middle = tree from before] at after
      exact after
  | cons rule rest ih =>
      obtain ⟨next, here, later⟩ := before
      exact ⟨next, here, ih later⟩

theorem eq_of_leaf (passes : Passes rules above tree final) (leaf : tree.isLeaf = true) :
    final = tree := by
  induction rules generalizing tree with
  | nil => exact passes
  | cons rule rest ih =>
      obtain ⟨middle, here, later⟩ := passes
      rcases here.cases with ⟨_, rfl⟩ | ⟨inner, _⟩
      · exact ih later leaf
      · simp [leaf] at inner

theorem leaf (rules : List Rule) (above : List Label) (leaf : tree.isLeaf = true) :
    Passes rules above tree tree := by
  induction rules with
  | nil => exact rfl
  | cons rule rest ih => exact ⟨tree, Runs.leaf (.start .empty) leaf, ih⟩

theorem below (passes : Passes rules above tree final) (inner : tree.isLeaf = false)
    (other : ∀ rule ∈ rules, tree.kind ∉ rule.kinds) :
    ∃ finals, final = .node tree.label finals ∧
      List.Forall₂ (Passes rules ((tree.label :: above).take 2)) tree.children finals := by
  induction rules generalizing tree with
  | nil =>
      obtain ⟨label, children⟩ := tree
      exact ⟨children, passes, List.forall₂_same.mpr fun child _ => rfl⟩
  | cons rule rest ih =>
      obtain ⟨middle, here, later⟩ := passes
      rcases here.cases with ⟨leaf, _⟩ | ⟨_, handled, middles, _, left, rfl, first⟩
      · simp [leaf] at inner
      · obtain rfl := left (other rule (by simp))
        obtain ⟨finals, same, second⟩ := ih later inner fun next member => other next (by simp [member])
        exact ⟨finals, same, first.comp second fun child middle final one more => ⟨middle, one, more⟩⟩

theorem unhandled {finals : List Node} (inner : tree.isLeaf = false)
    (other : ∀ rule ∈ rules, tree.kind ∉ rule.kinds)
    (below : List.Forall₂ (Passes rules ((tree.label :: above).take 2)) tree.children finals) :
    Passes rules above tree (.node tree.label finals) := by
  induction rules generalizing tree with
  | nil =>
      obtain ⟨label, children⟩ := tree
      have same : children = finals := List.forall₂_eq_eq_eq ▸ below.imp fun _ _ => Eq.symm
      exact congrArg _ same.symm
  | cons rule rest ih =>
      obtain ⟨middles, first, second⟩ := below.exists_between
      refine ⟨.node tree.label middles, .unhandled (other rule (by simp)) inner first, ?_⟩
      exact ih inner (fun next member => other next (by simp [member])) second

end Passes

end Rule

end ScriptTyping
