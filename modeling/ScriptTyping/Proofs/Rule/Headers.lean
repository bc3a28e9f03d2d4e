import Mathlib.Algebra.GroupWithZero.Nat
import ScriptTyping.Proofs.Rule.Outcome

set_option autoImplicit false

namespace ScriptTyping

open ScriptTyping.Tree

namespace LoopHeaders

def declaratorHints (declarator : Node) : Nat :=
  if isDeclarator declarator then declarator.children.countP (Children.inSlot "type") else 0

def childHints (child : Node) : Nat :=
  if isTypeHint child then 1
  else if isDeclaration child then (child.children.map declaratorHints).sum
  else 0

def headerHints (loop : Node) : Nat := ((header loop.children).map childHints).sum

theorem declaratorHints_congr {old new : Node} (kind : new.kind = old.kind)
    (slots : isDeclarator new = true →
      List.Forall₂ (fun old new : Node => new.slot = old.slot) old.children new.children) :
    declaratorHints new = declaratorHints old := by
  have same : isDeclarator new = isDeclarator old := by simp [isDeclarator, kind]
  unfold declaratorHints
  cases declares : isDeclarator new with
  | false => simp [← same, declares]
  | true =>
      have counts : new.children.countP (Children.inSlot "type") =
          old.children.countP (Children.inSlot "type") :=
        ((slots declares).imp fun _ _ equal => Children.inSlot_congr "type" equal).countP_eq
      simp [← same, declares, counts]

theorem childHints_congr {old new : Node} (kind : new.kind = old.kind)
    (declarators : isDeclaration new = true → List.Forall₂ (fun old new : Node =>
      declaratorHints new = declaratorHints old) old.children new.children) :
    childHints new = childHints old := by
  have hint : isTypeHint new = isTypeHint old := by simp [isTypeHint, kind]
  have same : isDeclaration new = isDeclaration old := by simp [isDeclaration, kind]
  unfold childHints
  rw [hint, ← same]
  cases declares : isDeclaration new with
  | false => rfl
  | true => rw [(declarators declares).map_eq]

theorem childHints_touched {old new : Node} (touched : Touched old new) :
    childHints new = childHints old := by
  refine childHints_congr touched.kind fun declares => ?_
  have same := touched.same (not_isParameter declares)
  exact same.children.imp fun _ _ same =>
    declaratorHints_congr same.kind fun _ => same.children.imp fun _ _ below => below.slot

theorem headerHints_of_inherits {old new : Node} (inherits : Inherits old new) :
    headerHints new = headerHints old := by
  have headers := header_related Touched.slot inherits.children
  rw [headerHints, headerHints, (headers.imp fun _ _ => childHints_touched).map_eq]

theorem sum_add_countP_le {before after : Node → Nat} {loses : Node → Bool} {nodes : List Node}
    (each : ∀ node ∈ nodes, after node + (if loses node then 1 else 0) ≤ before node) :
    (nodes.map after).sum + nodes.countP loses ≤ (nodes.map before).sum := by
  induction nodes with
  | nil => simp
  | cons node rest ih =>
      have here := each node (by simp)
      have later := ih fun other member => each other (by simp [member])
      simp only [List.map_cons, List.sum_cons, List.countP_cons]
      omega

theorem declaratorHints_strip (declarator : Node) :
    declaratorHints (stripDeclarator declarator) +
        (if isDeclarator declarator && declarator.hasChild "type" then 1 else 0) ≤
      declaratorHints declarator := by
  have kind : isDeclarator (stripDeclarator declarator) = isDeclarator declarator :=
    congrArg (fun label => label.kind == "variable_declarator") (label_stripDeclarator declarator)
  unfold declaratorHints
  rw [kind]
  cases declares : isDeclarator declarator with
  | false => simp
  | true =>
      simp only [if_true, Bool.true_and, stripDeclarator, declares, children_withChildren]
      cases shown : declarator.child? "type" with
      | none =>
          have absent : declarator.hasChild "type" = false := by simp [hasChild, shown]
          rw [Children.erase_absent "type" ((child?_eq_none_iff _ _).mp shown)]
          simp [absent]
      | some annotation =>
          obtain ⟨left, right, split, before, inside⟩ := (child?_eq_some_iff _ _ _).mp shown
          rw [split, Children.erase_split before inside, hasChild_of_child? shown]
          simp only [List.countP_append, List.countP_cons, inside, if_true]
          omega

theorem childHints_strip (child : Node) :
    ((strip child).toList.map childHints).sum + (if loses child then 1 else 0) ≤
      childHints child := by
  cases hint : isTypeHint child with
  | true => simp [strip, loses, childHints, hint]
  | false =>
      cases declares : isDeclaration child with
      | false => simp [strip, loses, hint, declares]
      | true =>
          let typed := fun declarator => isDeclarator declarator && declarator.hasChild "type"
          let stripped := child.withChildren (child.children.map stripDeclarator)
          have fewer : (child.children.map (declaratorHints ∘ stripDeclarator)).sum +
              child.children.countP typed ≤ (child.children.map declaratorHints).sum :=
            sum_add_countP_le fun declarator _ => declaratorHints_strip declarator
          have losing : (if loses child then 1 else 0) ≤ child.children.countP typed := by
            split
            next any =>
              exact List.countP_pos_iff.mpr (by simpa [loses, hint, declares, typed] using any)
            next => exact Nat.zero_le _
          have before : childHints child = (child.children.map declaratorHints).sum := by
            simp [childHints, hint, declares]
          have after : childHints stripped =
              (child.children.map (declaratorHints ∘ stripDeclarator)).sum := by
            have hint' : isTypeHint stripped = false := hint
            have declares' : isDeclaration stripped = true := declares
            simp [childHints, hint', declares', stripped]
          have kept : strip child = some stripped := by simp [strip, hint, declares, stripped]
          rw [kept, Option.toList_some, List.map_singleton, List.sum_singleton, after, before]
          omega

theorem headerHints_sanitize {tree : Node} (losing : (header tree.children).any loses = true) :
    headerHints (sanitize tree) < headerHints tree := by
  have stripped : (((header tree.children).filterMap strip).map childHints).sum =
      ((header tree.children).map fun child => ((strip child).toList.map childHints).sum).sum := by
    induction header tree.children with
    | nil => rfl
    | cons child rest ih =>
        rw [List.filterMap_cons, List.map_cons, List.sum_cons, ← ih]
        cases strip child <;> simp
  have fewer : ((header tree.children).map fun child =>
      ((strip child).toList.map childHints).sum).sum + (header tree.children).countP loses ≤
        ((header tree.children).map childHints).sum :=
    sum_add_countP_le fun child _ => childHints_strip child
  have some : 0 < (header tree.children).countP loses :=
    List.countP_pos_iff.mpr (List.any_eq_true.mp losing)
  rw [headerHints, header_sanitize, stripped, headerHints]
  omega

end LoopHeaders

namespace Rule

variable {whole handled : Node} {above : List Label}

theorem headerHints_final (regular : whole.Regular) (loop : handled.kind = Declarations.iterationKind)
    {finals : List Node}
    (pairs : List.Forall₂ (Follows whole handled.label ((handled.label :: above).take 2))
      handled.children finals) :
    LoopHeaders.headerHints (handled.withChildren finals) = LoopHeaders.headerHints handled := by
  have headers := (List.forall₂_and_left _ _).mpr
    ⟨fun child member => List.all_eq_true.mp List.all_takeWhile child member,
      LoopHeaders.header_related Follows.slot pairs⟩
  refine congrArg List.sum (List.Forall₂.map_eq (headers.imp fun child final both => ?_))
  obtain ⟨inside, follows⟩ := both
  refine LoopHeaders.childHints_congr follows.kind fun declares => ?_
  have declares' : LoopHeaders.isDeclaration child = true := by
    simpa [LoopHeaders.isDeclaration, follows.kind] using declares
  refine (declarators_follow regular declares' (by simpa using inside) loop follows).imp
    fun source declarator same => ?_
  refine LoopHeaders.declaratorHints_congr (congrArg Label.kind same.1) fun kind => ?_
  exact (same.2 kind).children.imp fun _ _ equal => congrArg Label.slot equal

end Rule

end ScriptTyping
