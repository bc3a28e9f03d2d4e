import ScriptTyping.Proofs.Rule.Lowering
import ScriptTyping.Proofs.Rule.Outcome

set_option autoImplicit false

namespace ScriptTyping

open ScriptTyping.Tree

namespace Functions

-- A token of the pattern binds the name. What stands in a default or in a computed key binds
-- nothing.
inductive BindsName : Node → String → Prop where
  | token {pattern : Node} {name : String} (kind : pattern.kind ∈ bindingKinds)
      (shown : pattern.label.token = some name) : BindsName pattern name
  | inside {pattern child : Node} {name : String} (inner : pattern.isLeaf = false)
      (member : child ∈ pattern.children) (place : child.slot ∉ [some "right", some "key"])
      (later : BindsName child name) : BindsName pattern name

def assignmentKinds : List String := ["assignment_pattern", "object_assignment_pattern"]

-- A child of a node of this kind that stands for a missing argument, or for a missing part of one.
def IsDefault (kind : String) (value : Node) : Prop :=
  kind ∈ parameterKinds ∧ value.slot = some "value" ∨
    kind ∈ assignmentKinds ∧ value.slot = some "right"

def HasDefault (tree value : Node) : Prop :=
  ∃ holder ∈ tree.subtrees, value ∈ holder.children ∧ IsDefault holder.kind value

structure Reads (value pattern : Node) (name : String) : Prop where
  binds : BindsName pattern name
  refers : name ∈ namesOf referenceKinds value

theorem hasDefault_iff (tree value : Node) :
    HasDefault tree value ↔ value ∈ tree.children ∧ IsDefault tree.kind value ∨
      ∃ child ∈ tree.children, HasDefault child value := by
  constructor
  · rintro ⟨holder, below, held⟩
    rcases (mem_subtrees_iff _ _).mp below with rfl | ⟨child, member, lower⟩
    · exact .inl held
    · exact .inr ⟨child, member, holder, lower, held⟩
  · rintro (held | ⟨child, member, holder, lower, held⟩)
    · exact ⟨tree, self_mem_subtrees tree, held⟩
    · exact ⟨holder, mem_subtrees_of_child member lower, held⟩

theorem not_hasDefault_leaf (kind token lead : String) (slot : Option String) (value : Node) :
    ¬ HasDefault (.leaf kind token lead slot) value := by
  rw [hasDefault_iff]
  simp [leaf]

theorem not_hasDefault_hint (value : Node) : ¬ HasDefault parameterHint value := by
  have other : ¬ IsDefault parameterHint.kind value := by
    rintro (⟨kind, _⟩ | ⟨kind, _⟩) <;> exact absurd kind (by decide)
  rw [hasDefault_iff]
  rintro (⟨_, default⟩ | ⟨child, member, lower⟩)
  · exact other default
  · rcases (by simpa [parameterHint, TypeHint.toNode, branch] using member) with rfl | rfl
    · exact not_hasDefault_leaf _ _ _ _ value lower
    · exact not_hasDefault_leaf _ _ _ _ value lower

theorem hasDefault_inserted {tree extra : Node} {slot : String} (inside : extra.slot = some slot)
    (place : slot ∉ ["value", "right"]) (plain : ∀ value, ¬ HasDefault extra value)
    (left right : List Node) (value : Node) :
    HasDefault (tree.withChildren (left ++ extra :: right)) value ↔
      HasDefault (tree.withChildren (left ++ right)) value := by
  have foreign : ¬ IsDefault tree.kind extra := by
    rintro (⟨_, same⟩ | ⟨_, same⟩) <;>
      exact place (by simp [Option.some.inj (inside.symm.trans same)])
  rw [hasDefault_iff, hasDefault_iff]
  simp only [children_withChildren, kind_withChildren, List.mem_append, List.mem_cons]
  constructor
  · rintro (⟨early | rfl | late, default⟩ | ⟨child, early | rfl | late, lower⟩)
    · exact .inl ⟨.inl early, default⟩
    · exact absurd default foreign
    · exact .inl ⟨.inr late, default⟩
    · exact .inr ⟨child, .inl early, lower⟩
    · exact absurd lower (plain value)
    · exact .inr ⟨child, .inr late, lower⟩
  · rintro (⟨early | late, default⟩ | ⟨child, early | late, lower⟩)
    · exact .inl ⟨.inl early, default⟩
    · exact .inl ⟨.inr (.inr late), default⟩
    · exact .inr ⟨child, .inl early, lower⟩
    · exact .inr ⟨child, .inr (.inr late), lower⟩

def staying (parameter : Node) : Node :=
  if (movable? parameter).isSome then
    parameter.withChildren (Children.erase "pattern" parameter.children)
  else parameter

theorem hasDefault_annotateParameter {child pattern : Node}
    (shown : child.child? "pattern" = some pattern) (value : Node) :
    HasDefault (annotateParameter child) value ↔ HasDefault child value := by
  obtain ⟨left, middle, rest, split, typed, _⟩ := typed_split shown
  have added : HasDefault (child.withChildren (left ++ pattern :: middle ++ parameterHint :: rest)) value ↔
      HasDefault (child.withChildren (left ++ pattern :: middle ++ rest)) value :=
    hasDefault_inserted rfl (by decide) not_hasDefault_hint _ _ _
  have whole : left ++ pattern :: middle ++ rest = child.children := by simp [split]
  rw [whole, withChildren_children] at added
  rw [typed]
  simpa [parameterHint] using added

theorem hasDefault_renamed {child pattern : Node} (shown : child.child? "pattern" = some pattern)
    (name : String) (value : Node) :
    HasDefault (annotateParameter (renamed name child)) value ↔
      HasDefault (child.withChildren (Children.erase "pattern" child.children)) value := by
  have named := Rule.child?_renamed shown name
  obtain ⟨left, right, split, before, inside⟩ := (child?_eq_some_iff _ _ _).mp shown
  rw [hasDefault_annotateParameter named, renamed, split, Children.modify_split _ before inside,
    Children.erase_split before inside]
  exact hasDefault_inserted rfl (by decide) (not_hasDefault_leaf _ _ _ _) left right value

inductive Becomes (canLower : Bool) (child : Node) : Node → Prop where
  | same (settled : changeOf canLower child = .pass ∨ changeOf canLower child = .keep) :
      Becomes canLower child child
  | typed (change : changeOf canLower child = .annotate) :
      Becomes canLower child (annotateParameter child)
  | lowered {pattern : Node} (name : String) (change : changeOf canLower child = .lower pattern) :
      Becomes canLower child (annotateParameter (renamed name child))

theorem Names.becomes {canLower : Bool} {before after : List Node} {names : List String}
    (named : Names canLower before after names) : List.Forall₂ (Becomes canLower) before after := by
  induction named with
  | nil => exact .nil
  | same settled _ ih => exact .cons (.same settled) ih
  | typed change _ ih => exact .cons (.typed change) ih
  | lowered change _ ih => exact .cons (.lowered _ change) ih

structure Departs (canLower : Bool) (child pattern : Node) : Prop where
  body : canLower = true
  bare : Unannotated child pattern
  structural : pattern.kind ∈ structuralKinds

theorem departs_iff (canLower : Bool) (child pattern : Node) :
    Departs canLower child pattern ↔ changeOf canLower child = .lower pattern := by
  constructor
  · rintro ⟨rfl, ⟨kind, shown, free⟩, structural⟩
    simp [changeOf, kind, shown, free, structural]
  · intro change
    obtain ⟨kind, shown, free, structural, body⟩ := changeOf_lower change
    exact ⟨body, ⟨kind, shown, free⟩, structural⟩

theorem Becomes.pattern_iff {canLower : Bool} {child changed : Node}
    (becomes : Becomes canLower child changed) (pattern : Node) :
    child.child? "pattern" = some pattern ∧ changed.child? "pattern" ≠ some pattern ↔
      Departs canLower child pattern := by
  rw [departs_iff]
  cases becomes with
  | same settled =>
      refine ⟨fun ⟨shown, gone⟩ => absurd shown gone, fun change => ?_⟩
      simp [change] at settled
  | typed change =>
      rw [child?_annotateParameter]
      refine ⟨fun ⟨shown, gone⟩ => absurd shown gone, fun other => ?_⟩
      simp [change] at other
  | @lowered found name change =>
      obtain ⟨_, shown, _, structural, _⟩ := changeOf_lower change
      rw [child?_annotateParameter, Rule.child?_renamed shown, shown, change]
      refine ⟨fun named => by rw [Option.some.inj named.1], fun same => ?_⟩
      obtain rfl := Change.lower.inj same
      refine ⟨rfl, fun identifier => ?_⟩
      rw [← Option.some.inj identifier] at structural
      exact absurd structural (show "identifier" ∉ structuralKinds by decide)

theorem Becomes.hasDefault_iff {child changed : Node} (becomes : Becomes true child changed)
    (value : Node) : HasDefault changed value ↔ HasDefault (staying child) value := by
  have stays (settled : ∀ pattern, changeOf true child ≠ .lower pattern) : staying child = child := by
    have unmoved : ¬ (movable? child).isSome := by
      intro moves
      obtain ⟨pattern, found⟩ := Option.isSome_iff_exists.mp moves
      by_cases bare : ∃ pattern, Unannotated child pattern
      · obtain ⟨shown, bare⟩ := bare
        rw [movable?_of_unannotated bare] at found
        split at found
        next structural => exact settled shown ((departs_iff _ _ _).mp ⟨rfl, bare, structural⟩)
        next => cases found
      · rw [movable?_of_settled fun pattern here => bare ⟨pattern, here⟩] at found
        cases found
    rw [staying, if_neg unmoved]
  cases becomes with
  | same settled =>
      rw [stays fun pattern change => by simp [change] at settled]
  | typed change =>
      obtain ⟨_, pattern, shown, _⟩ := changeOf_annotate change
      rw [hasDefault_annotateParameter shown, stays fun pattern other => by simp [change] at other]
  | @lowered pattern name change =>
      obtain ⟨_, bare, structural⟩ := (departs_iff _ _ _).mpr change
      have moves : (movable? child).isSome := by
        rw [movable?_of_unannotated bare, if_pos structural]
        rfl
      rw [hasDefault_renamed bare.shown, staying, if_pos moves]

def Gone (before after : List Node) (place : Nat) (pattern : Node) : Prop :=
  ∃ child changed, before[place]? = some child ∧ after[place]? = some changed ∧
    child.child? "pattern" = some pattern ∧ changed.child? "pattern" ≠ some pattern

def Strands (before after : List Node) (pattern value : Node) (name : String) : Prop :=
  Reads value pattern name ∧ ∃ (earlier later : Nat) (child : Node), earlier < later ∧
    Gone before after earlier pattern ∧ after[later]? = some child ∧ HasDefault child value

-- A default that is to stay reads a name of an earlier parameter's pattern that is to leave.
def Exposed (canLower : Bool) (before : List Node) (pattern value : Node) (name : String) : Prop :=
  Reads value pattern name ∧ ∃ (earlier later : Nat) (parameter child : Node), earlier < later ∧
    before[earlier]? = some parameter ∧ Departs canLower parameter pattern ∧
    before[later]? = some child ∧ HasDefault (staying child) value

theorem gone_iff {canLower : Bool} {before after : List Node}
    (pairs : List.Forall₂ (Becomes canLower) before after) (place : Nat) (pattern : Node) :
    Gone before after place pattern ↔
      ∃ child, before[place]? = some child ∧ Departs canLower child pattern := by
  have pair := pairs.rel_getElem? place
  constructor
  · rintro ⟨child, changed, here, there, gone⟩
    rw [here, there, Option.rel_some_some] at pair
    exact ⟨child, here, (pair.pattern_iff pattern).mp gone⟩
  · rintro ⟨child, here, departs⟩
    rw [here] at pair
    cases there : after[place]? with
    | none => simp [there] at pair
    | some changed =>
        rw [there, Option.rel_some_some] at pair
        exact ⟨child, changed, here, there, (pair.pattern_iff pattern).mpr departs⟩

theorem strands_iff {canLower : Bool} {before after : List Node}
    (pairs : List.Forall₂ (Becomes canLower) before after) (pattern value : Node) (name : String) :
    Strands before after pattern value name ↔ Exposed canLower before pattern value name := by
  refine and_congr_right fun _ => ⟨?_, ?_⟩
  · rintro ⟨earlier, later, changed, less, gone, there, default⟩
    obtain ⟨parameter, here, departs⟩ := (gone_iff pairs earlier pattern).mp gone
    have pair := pairs.rel_getElem? later
    cases behind : before[later]? with
    | none => simp [behind, there] at pair
    | some child =>
        rw [behind, there, Option.rel_some_some, departs.body] at pair
        exact ⟨earlier, later, parameter, child, less, here, departs, behind,
          (pair.hasDefault_iff value).mp default⟩
  · rintro ⟨earlier, later, parameter, child, less, here, departs, behind, default⟩
    have gone := (gone_iff pairs earlier pattern).mpr ⟨parameter, here, departs⟩
    have pair := pairs.rel_getElem? later
    cases there : after[later]? with
    | none => simp [behind, there] at pair
    | some changed =>
        rw [behind, there, Option.rel_some_some, departs.body] at pair
        exact ⟨earlier, later, changed, less, gone, there, (pair.hasDefault_iff value).mpr default⟩

/-- The defaults that lose a name are those that were to lose it before the function was handled. -/
theorem handle_strands_iff (above : List Label) (tree : Node) (session : Session) :
    withParameters? tree = none ∧ (handle above tree session).tree = tree ∨
      ∃ started list listed, withParameters? tree = some started ∧
        started.child? "parameters" = some list ∧
        (handle above tree session).tree.child? "parameters" = some listed ∧
        ∀ pattern value name, Strands list.children listed.children pattern value name ↔
          Exposed (started.hasChild "body") list.children pattern value name := by
  cases start : withParameters? tree with
  | none => exact .inl ⟨rfl, by simp [handle, start]⟩
  | some started =>
      obtain ⟨list, present⟩ := child?_started start
      obtain ⟨_, other, before, after, again, there, shown, named⟩ :=
        introduces_handle above session start present
      obtain rfl := Option.some.inj (start.symm.trans again)
      obtain rfl := Option.some.inj (present.symm.trans there)
      exact .inr ⟨started, list, after, rfl, present, shown, strands_iff named.becomes⟩

section Lending

def borrowing : Node :=
  .branch "required_parameter"
    [.leaf "identifier" "b" " " (some "pattern"), .mark "=" " ",
     .leaf "identifier" "a" " " (some "value")] none

def lendingList (first second : Node) : Node :=
  .branch "formal_parameters" [.mark "(" "", first, .mark "," "", second, .mark ")" ""]
    (some "parameters")

-- The default of the second parameter is a name that the pattern of the first one binds.
def lending : Node :=
  .branch "function_declaration"
    [.mark "function" "", .leaf "identifier" "f" " " (some "name"), lendingList patterned borrowing,
     .branch "statement_block" [.mark "\x7b" " ", .mark "\x7d" ""] (some "body")] none

theorem handle_strands_default :
    ¬ ∀ above tree session started list listed, withParameters? tree = some started →
      started.child? "parameters" = some list →
      (handle above tree session).tree.child? "parameters" = some listed →
      ∀ pattern value name, ¬ Strands list.children listed.children pattern value name := by
  intro claimed
  have shown : (handle [] lending (.start .empty)).tree.child? "parameters" =
      some (lendingList (annotateParameter (renamed "params" patterned))
        (annotateParameter borrowing)) := by
    decide +kernel
  obtain ⟨pattern, found⟩ : ∃ pattern, patterned.child? "pattern" = some pattern := ⟨_, rfl⟩
  let value : Node := .leaf "identifier" "a" " " (some "value")
  have gone : Gone (lendingList patterned borrowing).children
      (lendingList (annotateParameter (renamed "params" patterned))
        (annotateParameter borrowing)).children 1 pattern := by
    refine ⟨patterned, _, rfl, rfl, found, ?_⟩
    cases found
    decide +kernel
  have binds : BindsName pattern "a" := by
    cases found
    exact .inside rfl (List.mem_cons_of_mem _ List.mem_cons_self) (by decide)
      (.token (by decide) rfl)
  have stands : HasDefault (annotateParameter borrowing) value := by
    refine (hasDefault_annotateParameter rfl value).mpr ⟨borrowing, self_mem_subtrees _, ?_, ?_⟩
    · simp [borrowing, branch, value]
    · exact .inl ⟨by decide, rfl⟩
  exact claimed [] lending (.start .empty) _ _ _ rfl rfl shown pattern value "a"
    ⟨⟨binds, by decide +kernel⟩, 1, 3, _, by decide, gone, rfl, stands⟩

end Lending

end Functions

end ScriptTyping
