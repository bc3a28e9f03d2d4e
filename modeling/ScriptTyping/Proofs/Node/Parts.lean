import Mathlib.Data.List.Basic
import ScriptTyping.Node.Basic

set_option autoImplicit false

namespace ScriptTyping

namespace Tree

variable {α : Type}

mutual

def subtrees : Tree α → List (Tree α)
  | node label children => node label children :: subtreesAll children

def subtreesAll : List (Tree α) → List (Tree α)
  | [] => []
  | tree :: rest => subtrees tree ++ subtreesAll rest

end

theorem subtreesAll_eq (trees : List (Tree α)) : subtreesAll trees = trees.flatMap subtrees := by
  induction trees with
  | nil => simp [subtreesAll]
  | cons tree rest ih => simp [subtreesAll, ih]

theorem subtrees_node (label : α) (children : List (Tree α)) :
    (node label children).subtrees = node label children :: children.flatMap subtrees := by
  rw [subtrees, subtreesAll_eq]

theorem mem_subtrees_iff (part tree : Tree α) :
    part ∈ tree.subtrees ↔ part = tree ∨ ∃ child ∈ tree.children, part ∈ child.subtrees := by
  obtain ⟨label, children⟩ := tree
  simp [subtrees_node]

theorem self_mem_subtrees (tree : Tree α) : tree ∈ tree.subtrees := by
  rw [mem_subtrees_iff]
  exact .inl rfl

theorem mem_subtrees_of_child {part child tree : Tree α} (member : child ∈ tree.children)
    (below : part ∈ child.subtrees) : part ∈ tree.subtrees := by
  rw [mem_subtrees_iff]
  exact .inr ⟨child, member, below⟩

theorem child_mem_subtrees {child tree : Tree α} (member : child ∈ tree.children) :
    child ∈ tree.subtrees :=
  mem_subtrees_of_child member (self_mem_subtrees child)

theorem mem_subtrees_trans {part middle whole : Tree α} (lower : part ∈ middle.subtrees)
    (upper : middle ∈ whole.subtrees) : part ∈ whole.subtrees := by
  induction whole with
  | node label children ih =>
      rw [mem_subtrees_iff] at upper
      rcases upper with rfl | ⟨child, member, deeper⟩
      · exact lower
      · exact mem_subtrees_of_child member (ih child member deeper)

inductive Below (holds : Label → Node → Prop) : Node → Prop where
  | node {label : Label} {children : List Node}
      (each : ∀ child ∈ children, holds label child)
      (deep : ∀ child ∈ children, Below holds child) : Below holds (.node label children)

variable {holds : Label → Node → Prop}

theorem below_iff (tree : Node) :
    Below holds tree ↔ ∀ child ∈ tree.children, holds tree.label child ∧ Below holds child := by
  obtain ⟨label, children⟩ := tree
  constructor
  · rintro ⟨each, deep⟩ child member
    exact ⟨each child member, deep child member⟩
  · intro both
    exact .node (fun child member => (both child member).1) fun child member =>
      (both child member).2

theorem Below.child {tree upper child : Node} (below : Below holds tree)
    (member : upper ∈ tree.subtrees) (present : child ∈ upper.children) :
    holds upper.label child := by
  induction tree using induct with
  | node label children ih =>
      have each := (below_iff _).mp below
      rcases (mem_subtrees_iff _ _).mp member with rfl | ⟨top, here, lower⟩
      · exact (each child present).1
      · exact ih top here (each top here).2 lower

theorem Below.relabel {tree : Node} (below : Below holds tree) {label : Label}
    (parents : ∀ child, holds tree.label child → holds label child) :
    Below holds (.node label tree.children) := by
  rw [below_iff] at below ⊢
  intro child member
  exact ⟨parents child (below child member).1, (below child member).2⟩

theorem below_of_subtrees {tree : Node} (each : ∀ label, ∀ part ∈ tree.subtrees, holds label part) :
    Below holds tree := by
  induction tree using induct with
  | node label children ih =>
      refine (below_iff _).mpr fun child member => ⟨?_, ih child member fun label part lower => ?_⟩
      · exact each _ child (child_mem_subtrees member)
      · exact each label part (mem_subtrees_of_child member lower)

theorem below_of_parts {tree : Node}
    (each : ∀ part ∈ tree.subtrees, ∀ child ∈ part.children, holds part.label child) :
    Below holds tree := by
  induction tree using induct with
  | node label children ih =>
      refine (below_iff _).mpr fun child member => ⟨?_, ih child member fun part lower => ?_⟩
      · exact each _ (self_mem_subtrees _) child member
      · exact each part (mem_subtrees_of_child member lower)

mutual

-- The labels of the nodes that neither are leaves nor stand below one, in preorder.
def inners : Node → List Label
  | node label children => if label.isLeaf then [] else label :: innersAll children

def innersAll : List Node → List Label
  | [] => []
  | tree :: rest => inners tree ++ innersAll rest

end

theorem innersAll_eq (trees : List Node) : innersAll trees = trees.flatMap inners := by
  induction trees with
  | nil => simp [innersAll]
  | cons tree rest ih => simp [innersAll, ih]

theorem inners_of_childless (tree : Node)
    (childless : ∀ part ∈ tree.subtrees, part.isLeaf = true → part.children = []) :
    tree.inners = (tree.subtrees.filter fun part => !part.isLeaf).map label := by
  induction tree using induct with
  | node label children ih =>
      rw [inners, subtrees_node, List.filter_cons]
      cases leaf : label.isLeaf with
      | true =>
          have none : children = [] := childless _ (self_mem_subtrees _) leaf
          simp [none, isLeaf, leaf]
      | false =>
          have below : children.flatMap inners = children.flatMap fun child =>
              (child.subtrees.filter fun part => !part.isLeaf).map Tree.label :=
            List.flatMap_congr fun child member =>
              ih child member fun part lower => childless part (mem_subtrees_of_child member lower)
          simp [isLeaf, leaf, innersAll_eq, below, List.filter_flatMap, List.map_flatMap]

end Tree

end ScriptTyping
