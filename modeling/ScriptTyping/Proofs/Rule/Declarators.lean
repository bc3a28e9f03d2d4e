import ScriptTyping.Proofs.Rule.Outcome
import ScriptTyping.Proofs.Rule.Stable

set_option autoImplicit false

namespace ScriptTyping

open ScriptTyping.Tree

namespace Rule

def Single (tree : Node) : Prop :=
  ∀ part ∈ tree.subtrees, part.kind = "variable_declarator" →
    part.children.countP (Children.inSlot "type") ≤ 1

variable {tree : Node}

theorem single_iff (tree : Node) :
    Single tree ↔ (tree.kind = "variable_declarator" →
      tree.children.countP (Children.inSlot "type") ≤ 1) ∧ ∀ child ∈ tree.children, Single child := by
  constructor
  · intro single
    refine ⟨single tree (self_mem_subtrees tree), fun child member part below => ?_⟩
    exact single part (mem_subtrees_of_child member below)
  · rintro ⟨own, each⟩ part member
    rcases (mem_subtrees_iff _ _).mp member with rfl | ⟨child, present, below⟩
    · exact own
    · exact each child present part below

theorem Single.child (single : Single tree) {child : Node} (member : child ∈ tree.children) :
    Single child :=
  ((single_iff tree).mp single).2 child member

theorem single_of_kind (other : tree.kind ≠ "variable_declarator")
    (each : ∀ child ∈ tree.children, Single child) : Single tree :=
  (single_iff tree).mpr ⟨fun kind => absurd kind other, each⟩

theorem Single.relabel (single : Single tree) {label : Label} (kind : label.kind = tree.kind) :
    Single (.node label tree.children) := by
  obtain ⟨own, each⟩ := (single_iff tree).mp single
  exact (single_iff _).mpr ⟨fun declarator => own (kind.symm.trans declarator), each⟩

theorem Single.withChildren (single : Single tree) {children : List Node}
    (slots : List.Forall₂ (fun old new : Node => new.slot = old.slot) tree.children children)
    (each : ∀ child ∈ children, Single child) : Single (tree.withChildren children) := by
  have counts : children.countP (Children.inSlot "type") =
      tree.children.countP (Children.inSlot "type") :=
    (slots.imp fun _ _ same => Children.inSlot_congr "type" same).countP_eq
  refine (single_iff _).mpr ⟨fun declarator => ?_, each⟩
  rw [children_withChildren, counts]
  exact ((single_iff tree).mp single).1 declarator

theorem Single.withTrivia (lead : String) (single : Single tree) : Single (tree.withTrivia lead) := by
  induction tree using Tree.induct with
  | node label children ih =>
      have pairs := children_withTrivia lead (.node label children)
      have kind := kind_withTrivia lead (.node label children)
      have below : Single ((Tree.node label children).withChildren
          ((Tree.node label children).withTrivia lead).children) := by
        refine single.withChildren (pairs.imp fun old new same => ?_) fun child member => ?_
        · rcases same with rfl | rfl <;> simp
        · obtain ⟨old, present, same⟩ := pairs.exists_of_mem_right member
          rcases same with rfl | rfl
          · exact single.child present
          · exact ih old present (single.child present)
      generalize (Tree.node label children).withTrivia lead = changed at below kind ⊢
      obtain ⟨label', children'⟩ := changed
      exact below.relabel kind

theorem stable_single : Stable Single where
  child single member := single.child member
  childless label := (single_iff _).mpr
    ⟨fun _ => Nat.zero_le 1, fun _ member => absurd member List.not_mem_nil⟩
  built {tree} kind each := by
    have apart : "variable_declarator" ∉ builtKinds := by decide
    exact single_of_kind (fun declarator => apart (declarator ▸ kind)) each
  relabeled kind single := single.relabel kind
  relead lead single := single.withTrivia lead
  bare {tree} _ free each := by
    have none : tree.children.countP (Children.inSlot "type") = 0 := by
      have absent := (child?_eq_none_iff _ _).mp ((hasChild_eq_false_iff _ _).mp free)
      exact List.countP_eq_zero.mpr fun child member => by simp [absent child member]
    exact (single_iff _).mpr ⟨fun _ => by omega, each⟩
  stripped {tree} single := by
    obtain ⟨own, each⟩ := (single_iff _).mp single
    unfold LoopHeaders.stripDeclarator
    split
    · refine (single_iff _).mpr ⟨fun kind => ?_, fun other left => ?_⟩
      · exact Nat.le_trans List.eraseP_sublist.countP_le (own kind)
      · exact each other (List.mem_of_mem_eraseP left)
    · exact single
  annotated annotates single each :=
    single.withChildren ((labels_annotates annotates).imp fun _ _ same => congrArg Label.slot same) each

end Rule

end ScriptTyping
