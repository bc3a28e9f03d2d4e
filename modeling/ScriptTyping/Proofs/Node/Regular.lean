import ScriptTyping.Proofs.Node.Parts
import Mathlib.Data.List.Nodup
import Mathlib.Data.List.Pairwise

set_option autoImplicit false

namespace ScriptTyping.Tree

variable {α : Type}

theorem preorder_injective {first second : Tree α} (same : first.preorder = second.preorder) :
    first = second := by
  have read := ofRows?_preorder first
  rw [same, ofRows?_preorder] at read
  exact (Option.some.inj read).symm

instance [DecidableEq α] : DecidableEq (Tree α) := fun first second =>
  decidable_of_iff (first.preorder = second.preorder) ⟨preorder_injective, congrArg preorder⟩

def numberedAs (number : Nat) (tree : Node) : Node :=
  node { tree.label with origin := some number } tree.children

structure Regular (tree : Node) : Prop where
  numbered : ∀ part ∈ tree.subtrees, part.label.origin.isSome = true
  distinct : (tree.subtrees.map fun part => part.label.origin).Nodup
  childless : ∀ part ∈ tree.subtrees, part.isLeaf = true → part.children = []

theorem exists_leaf_of_mem_leaves {tree : Node} {token : Label} (member : token ∈ tree.leaves) :
    ∃ part ∈ tree.subtrees, part.label = token ∧ part.isLeaf = true := by
  induction tree using induct with
  | node label children ih =>
      cases leaf : label.isLeaf with
      | true =>
          rw [leaves_leaf label children leaf, List.mem_singleton] at member
          exact ⟨_, self_mem_subtrees _, member.symm, leaf⟩
      | false =>
          rw [leaves_branch label children leaf, List.mem_flatMap] at member
          obtain ⟨child, present, below⟩ := member
          obtain ⟨part, lower, same, token⟩ := ih child present below
          exact ⟨part, mem_subtrees_of_child present lower, same, token⟩

namespace Regular

variable {tree : Node}

theorem child (regular : tree.Regular) {child : Node} (member : child ∈ tree.children) :
    child.Regular where
  numbered part lower := regular.numbered part (mem_subtrees_of_child member lower)
  childless part lower := regular.childless part (mem_subtrees_of_child member lower)
  distinct := by
    obtain ⟨label, children⟩ := tree
    have below : child.subtrees.Sublist (children.flatMap subtrees) := by
      obtain ⟨left, right, rfl⟩ := List.append_of_mem member
      simp [List.flatMap_append]
    have whole := regular.distinct
    rw [subtrees_node] at whole
    exact whole.sublist ((below.cons _).map _)

theorem part (regular : tree.Regular) {part : Node} (member : part ∈ tree.subtrees) :
    part.Regular := by
  induction tree using induct with
  | node label children ih =>
      rcases (mem_subtrees_iff _ _).mp member with rfl | ⟨child, present, lower⟩
      · exact regular
      · exact ih child present (regular.child present) lower

theorem inner (regular : tree.Regular) {child : Node} (member : child ∈ tree.children) :
    tree.isLeaf = false := by
  cases leaf : tree.isLeaf with
  | false => rfl
  | true => simp [regular.childless tree (self_mem_subtrees tree) leaf] at member

theorem eq_of_origin (regular : tree.Regular) {first second : Node} (left : first ∈ tree.subtrees)
    (right : second ∈ tree.subtrees) (same : first.label.origin = second.label.origin) :
    first = second :=
  List.inj_on_of_nodup_map regular.distinct left right same

theorem leaf_eq (regular : tree.Regular) {first second : Label} (left : first ∈ tree.leaves)
    (right : second ∈ tree.leaves) (same : first.origin = second.origin) : first = second := by
  obtain ⟨part, member, rfl, _⟩ := exists_leaf_of_mem_leaves left
  obtain ⟨other, present, rfl, _⟩ := exists_leaf_of_mem_leaves right
  rw [regular.eq_of_origin member present same]

theorem leaves_sublist (regular : tree.Regular) {part : Node} (member : part ∈ tree.subtrees) :
    part.leaves.Sublist tree.leaves := by
  induction tree using induct with
  | node label children ih =>
      rcases (mem_subtrees_iff _ _).mp member with rfl | ⟨child, present, lower⟩
      · exact List.Sublist.refl _
      · have below := ih child present (regular.child present) lower
        rw [leaves_branch label children (regular.inner present)]
        obtain ⟨left, right, rfl⟩ := List.append_of_mem present
        simp only [List.flatMap_append, List.flatMap_cons]
        exact (below.trans (List.sublist_append_left _ _)).trans (List.sublist_append_right _ _)

theorem nested (regular : tree.Regular) {first second part : Node} (left : first ∈ tree.subtrees)
    (right : second ∈ tree.subtrees) (within : part ∈ first.subtrees)
    (shared : part ∈ second.subtrees) :
    first ∈ second.subtrees ∨ second ∈ first.subtrees := by
  induction tree using induct with
  | node label children ih =>
      rcases (mem_subtrees_iff _ _).mp left with rfl | ⟨child, member, above⟩
      · exact .inr right
      rcases (mem_subtrees_iff _ _).mp right with rfl | ⟨other, present, higher⟩
      · exact .inl left
      by_cases same : child = other
      · subst same
        exact ih child member (regular.child member) above higher
      · -- The part would lie below two children, which have no part in common.
        have distinct := regular.distinct.of_map
        rw [subtrees_node, List.nodup_cons, List.nodup_flatMap] at distinct
        have symmetric : Std.Symm (Function.onFun List.Disjoint (subtrees (α := Label))) :=
          ⟨fun _ _ disjoint _ left right => disjoint right left⟩
        have apart := distinct.2.2.forall member present same
        exact absurd (mem_subtrees_trans shared higher) (apart (mem_subtrees_trans within above))

end Regular

end ScriptTyping.Tree
