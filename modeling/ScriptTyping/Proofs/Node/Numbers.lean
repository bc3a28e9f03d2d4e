import ScriptTyping.Proofs.Node.Lead
import ScriptTyping.Proofs.Node.Regular
import Mathlib.Data.List.Flatten

set_option autoImplicit false

namespace ScriptTyping.Tree

def numbers (tree : Node) : List Nat := tree.leaves.filterMap (·.origin)

theorem numbers_leaf {tree : Node} (leaf : tree.isLeaf = true) :
    tree.numbers = tree.label.origin.toList := by
  obtain ⟨label, children⟩ := tree
  rw [numbers, leaves_leaf label children leaf]
  cases origin : label.origin <;> simp [origin]

theorem numbers_inner {tree : Node} (inner : tree.isLeaf = false) :
    tree.numbers = tree.children.flatMap numbers := by
  obtain ⟨label, children⟩ := tree
  rw [numbers, leaves_branch label children inner, List.filterMap_flatMap]
  rfl

theorem numbers_sublist_origins (tree : Node) :
    (tree.numbers.map some).Sublist (tree.leaves.map (·.origin)) := by
  rw [numbers]
  induction tree.leaves with
  | nil => exact .slnil
  | cons token rest ih =>
      cases origin : token.origin with
      | none => simpa [origin] using ih.cons none
      | some number => simpa [origin] using ih

theorem filter_numbers (tree : Node) (number : Nat) :
    tree.numbers.filter (fun other => other ∈ [number]) =
      (tree.leaves.filter fun token => token.origin = some number).map fun _ => number := by
  rw [numbers]
  induction tree.leaves with
  | nil => rfl
  | cons token rest ih =>
      cases origin : token.origin with
      | none => simpa [origin] using ih
      | some other =>
          by_cases same : other = number
          · simpa [origin, same] using ih
          · simpa [origin, same] using ih

theorem mem_numbers_iff (tree : Node) (number : Nat) :
    number ∈ tree.numbers ↔ ∃ token ∈ tree.leaves, token.origin = some number := by
  simp [numbers, List.mem_filterMap]

@[simp]
theorem numbers_token (kind token lead : String) (slot : Option String) :
    (leaf kind token lead slot).numbers = [] := by
  simp [numbers]
  rfl

@[simp]
theorem numbers_mark (token lead : String) : (mark token lead).numbers = [] :=
  numbers_token token token lead none

@[simp]
theorem numbers_made (kind : String) (children : List Node) (slot : Option String) :
    (branch kind children slot).numbers = children.flatMap numbers :=
  numbers_inner rfl

@[simp]
theorem numbers_withTrivia (lead : String) (tree : Node) :
    (tree.withTrivia lead).numbers = tree.numbers := by
  rw [numbers, leaves_withTrivia, numbers]
  cases tree.leaves <;> rfl

theorem numbers_withChildren {tree : Node} (inner : tree.isLeaf = false) (children : List Node) :
    (tree.withChildren children).numbers = children.flatMap numbers :=
  numbers_inner inner

theorem numbers_relabel {label other : Label} (token : other.token = label.token)
    (origin : other.origin = label.origin) (children : List Node) :
    (node other children).numbers = (node label children).numbers := by
  have leaves' : other.isLeaf = label.isLeaf := by rw [Label.isLeaf, token, Label.isLeaf]
  cases leaf : label.isLeaf with
  | true =>
      rw [@numbers_leaf (node label children) leaf, @numbers_leaf (node other children)
        (leaves'.trans leaf), label_node, label_node, origin]
  | false =>
      rw [@numbers_inner (node label children) leaf, @numbers_inner (node other children)
        (leaves'.trans leaf), children_node, children_node]

@[simp]
theorem numbers_withSlot (tree : Node) (slot : Option String) :
    (tree.withSlot slot).numbers = tree.numbers := by
  obtain ⟨label, children⟩ := tree
  exact @numbers_relabel label { label with slot } rfl rfl children

theorem SameButLead.numbers {old new : Node} (same : SameButLead old new) :
    new.numbers = old.numbers := by
  rcases same with rfl | ⟨lead, _, rfl⟩
  · rfl
  · exact numbers_withTrivia lead old

theorem leaves_sublist_subtrees (tree : Node) :
    tree.leaves.Sublist (tree.subtrees.map label) := by
  induction tree using induct with
  | node label children ih =>
      rw [subtrees_node, List.map_cons]
      cases leaf : label.isLeaf with
      | true =>
          rw [leaves_leaf label children leaf]
          exact (List.nil_sublist _).cons_cons _
      | false =>
          rw [leaves_branch label children leaf, List.map_flatMap]
          exact .cons _ (List.Sublist.flatMap_right children ih)

namespace Regular

variable {tree : Node}

theorem numbers_sublist (regular : tree.Regular) {part : Node} (member : part ∈ tree.subtrees) :
    part.numbers.Sublist tree.numbers :=
  (regular.leaves_sublist member).filterMap _

theorem mem_leaves_of_number (regular : tree.Regular) {part : Node} (member : part ∈ tree.subtrees)
    {token : Label} (present : token ∈ tree.leaves) {number : Nat}
    (origin : token.origin = some number) (listed : number ∈ part.numbers) :
    token ∈ part.leaves := by
  obtain ⟨other, below, same⟩ := (mem_numbers_iff _ _).mp listed
  have within := (regular.leaves_sublist member).subset below
  rwa [regular.leaf_eq present within (origin.trans same.symm)]

theorem nested_of_token (regular : tree.Regular) {first second : Node}
    (left : first ∈ tree.subtrees) (right : second ∈ tree.subtrees) {token : Label}
    (within : token ∈ first.leaves) (shared : token ∈ second.leaves) :
    first ∈ second.subtrees ∨ second ∈ first.subtrees := by
  obtain ⟨part, lower, same, _⟩ := exists_leaf_of_mem_leaves within
  obtain ⟨other, below, equal, _⟩ := exists_leaf_of_mem_leaves shared
  have one := regular.eq_of_origin (mem_subtrees_trans lower left) (mem_subtrees_trans below right)
    (by rw [same, equal])
  exact regular.nested left right lower (one ▸ below)

theorem origins_of_tokens (regular : tree.Regular) {tokens : List Label}
    (present : ∀ token ∈ tokens, token ∈ tree.leaves) :
    (tokens.filterMap (·.origin)).map some = tokens.map (·.origin) := by
  induction tokens with
  | nil => rfl
  | cons token rest ih =>
      obtain ⟨part, member, same, _⟩ := exists_leaf_of_mem_leaves (present token (by simp))
      obtain ⟨number, origin⟩ := Option.isSome_iff_exists.mp (regular.numbered part member)
      rw [same] at origin
      have later := ih fun other member => present other (by simp [member])
      simp [origin, later]

theorem nodup_numbers (regular : tree.Regular) : tree.numbers.Nodup := by
  have tokens : (tree.leaves.map (·.origin)).Nodup := by
    have all := regular.distinct
    rw [← Function.comp_def Label.origin, ← List.map_map] at all
    exact all.sublist ((leaves_sublist_subtrees tree).map _)
  have numbers : tree.numbers = (tree.leaves.map (·.origin)).filterMap id := by
    simp [Tree.numbers, List.filterMap_map]
  rw [numbers]
  refine tokens.filterMap ?_
  rintro first second number ⟨⟩ ⟨⟩
  rfl

end Regular

end ScriptTyping.Tree
