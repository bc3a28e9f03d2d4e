import ScriptTyping.Proofs.Node.Parts
import Mathlib.Data.List.Forall2

set_option autoImplicit false

namespace ScriptTyping

def Label.releadFirst (lead : String) : List Label → List Label
  | [] => []
  | first :: rest => { first with lead } :: rest

namespace Tree

theorem leaves_eq_nil_iff_branch {label : Label} {children : List Node}
    (inner : label.isLeaf = false) :
    (node label children).leaves = [] ↔ ∀ child ∈ children, child.leaves = [] := by
  rw [leaves_branch label children inner, List.flatMap_eq_nil_iff]

@[simp]
theorem leaves_token (kind token lead : String) (slot : Option String) :
    (leaf kind token lead slot).leaves = [(leaf kind token lead slot).label] :=
  leaves_leaf _ _ rfl

@[simp]
theorem leaves_mark (token lead : String) : (mark token lead).leaves = [(mark token lead).label] :=
  leaves_leaf _ _ rfl

@[simp]
theorem leaves_made (kind : String) (children : List Node) (slot : Option String) :
    (branch kind children slot).leaves = children.flatMap leaves :=
  leaves_branch _ _ rfl

theorem split_at_first_leaf (trees : List Node) :
    (∀ tree ∈ trees, tree.leaves = []) ∨
      ∃ left first right, trees = left ++ first :: right ∧ (∀ tree ∈ left, tree.leaves = []) ∧
        first.leaves ≠ [] := by
  induction trees with
  | nil => exact .inl (by simp)
  | cons tree rest ih =>
      by_cases empty : tree.leaves = []
      · rcases ih with all | ⟨left, first, right, rfl, before, present⟩
        · exact .inl (by simpa [empty] using all)
        · exact .inr ⟨tree :: left, first, right, rfl, by simpa [empty] using before, present⟩
      · exact .inr ⟨[], tree, rest, rfl, by simp, empty⟩

theorem withTriviaIn?_none (lead : String) (trees : List Node)
    (each : ∀ tree ∈ trees, withTrivia? lead tree = none) : withTriviaIn? lead trees = none := by
  induction trees with
  | nil => simp [withTriviaIn?]
  | cons tree rest ih =>
      have there := ih fun other present => each other (by simp [present])
      simp [withTriviaIn?, each tree (by simp), there]

theorem withTriviaIn?_split (lead : String) (left : List Node) (first : Node) (right : List Node)
    (before : ∀ tree ∈ left, withTrivia? lead tree = none)
    (present : withTrivia? lead first ≠ none) :
    withTriviaIn? lead (left ++ first :: right) =
      some (left ++ withTrivia lead first :: right) := by
  induction left with
  | nil =>
      cases changed : withTrivia? lead first with
      | none => exact absurd changed present
      | some other => simp [withTriviaIn?, withTrivia, changed]
  | cons tree rest ih =>
      have there := ih fun other member => before other (by simp [member])
      simp [withTriviaIn?, before tree (by simp), there]

theorem withTrivia?_eq_none_iff (lead : String) (tree : Node) :
    withTrivia? lead tree = none ↔ tree.leaves = [] := by
  induction tree using induct with
  | node label children ih =>
      cases leaf : label.isLeaf with
      | true => simp [withTrivia?, leaf, leaves_leaf]
      | false =>
          rw [leaves_eq_nil_iff_branch leaf]
          rcases split_at_first_leaf children with all | ⟨left, first, right, rfl, before, present⟩
          · have none := withTriviaIn?_none lead children fun tree member =>
              (ih tree member).mpr (all tree member)
            simpa [withTrivia?, leaf, none] using all
          · have some := withTriviaIn?_split lead left first right
              (fun tree member => (ih tree (by simp [member])).mpr (before tree member))
              (fun none => present ((ih first (by simp)).mp none))
            simp only [withTrivia?, leaf, some]
            simpa using ⟨first, by simp, present⟩

theorem withTrivia_leaf (lead : String) {label : Label} (children : List Node)
    (leaf : label.isLeaf = true) :
    withTrivia lead (node label children) = node { label with lead } children := by
  simp [withTrivia, withTrivia?, leaf]

theorem withTrivia_of_leaves_nil (lead : String) {tree : Node} (empty : tree.leaves = []) :
    withTrivia lead tree = tree := by
  simp [withTrivia, (withTrivia?_eq_none_iff lead tree).mpr empty]

theorem withTrivia_split (lead : String) {label : Label} (inner : label.isLeaf = false)
    (left : List Node) (first : Node) (right : List Node)
    (before : ∀ tree ∈ left, tree.leaves = []) (present : first.leaves ≠ []) :
    withTrivia lead (node label (left ++ first :: right)) =
      node label (left ++ withTrivia lead first :: right) := by
  have changed := withTriviaIn?_split lead left first right
    (fun tree member => (withTrivia?_eq_none_iff lead tree).mpr (before tree member))
    (fun none => present ((withTrivia?_eq_none_iff lead first).mp none))
  simp [withTrivia, withTrivia?, inner, changed]

theorem lead_induct {motive : Node → Prop}
    (leaf : ∀ label children, label.isLeaf = true → motive (node label children))
    (empty : ∀ tree, tree.leaves = [] → motive tree)
    (split : ∀ label left first right, label.isLeaf = false →
      (∀ tree ∈ left, tree.leaves = []) → first.leaves ≠ [] → motive first →
      motive (node label (left ++ first :: right))) (tree : Node) : motive tree := by
  induction tree using induct with
  | node label children ih =>
      cases token : label.isLeaf with
      | true => exact leaf label children token
      | false =>
          rcases split_at_first_leaf children with all | ⟨left, first, right, rfl, before, present⟩
          · exact empty _ ((leaves_eq_nil_iff_branch token).mpr all)
          · exact split label left first right token before present (ih first (by simp))

theorem leaves_withTrivia (lead : String) (tree : Node) :
    (withTrivia lead tree).leaves = Label.releadFirst lead tree.leaves := by
  induction tree using lead_induct with
  | leaf label children leaf =>
      rw [withTrivia_leaf lead children leaf, leaves_leaf _ _ leaf]
      exact leaves_leaf _ _ leaf
  | empty tree empty => rw [withTrivia_of_leaves_nil lead empty, empty, Label.releadFirst]
  | split label left first right inner before present ih =>
      have none : left.flatMap leaves = [] := by simpa using before
      rw [withTrivia_split lead inner left first right before present, leaves_branch _ _ inner,
        leaves_branch _ _ inner]
      simp only [List.flatMap_append, List.flatMap_cons, none, List.nil_append, ih]
      cases tokens : first.leaves with
      | nil => exact absurd tokens present
      | cons token rest => simp [Label.releadFirst]

theorem leaves_withTrivia_ne_nil (lead : String) {tree : Node} (present : tree.leaves ≠ []) :
    (withTrivia lead tree).leaves ≠ [] := by
  rw [leaves_withTrivia]
  cases tokens : tree.leaves with
  | nil => exact absurd tokens present
  | cons token rest => simp [Label.releadFirst]

theorem withTrivia_withTrivia (outer inner : String) (tree : Node) :
    withTrivia outer (withTrivia inner tree) = withTrivia outer tree := by
  induction tree using lead_induct with
  | leaf label children leaf =>
      rw [withTrivia_leaf inner children leaf, withTrivia_leaf outer children leaf]
      exact withTrivia_leaf outer children leaf
  | empty tree empty => rw [withTrivia_of_leaves_nil inner empty]
  | split label left first right branch before present ih =>
      rw [withTrivia_split inner branch left first right before present,
        withTrivia_split outer branch left _ right before (leaves_withTrivia_ne_nil inner present),
        withTrivia_split outer branch left first right before present, ih]

theorem label_withTrivia (lead : String) (tree : Node) :
    ∃ other, (withTrivia lead tree).label = { tree.label with lead := other } := by
  induction tree using lead_induct with
  | leaf label children leaf =>
      rw [withTrivia_leaf lead children leaf]
      exact ⟨lead, rfl⟩
  | empty tree empty => exact ⟨tree.label.lead, by rw [withTrivia_of_leaves_nil lead empty]⟩
  | split label left first right inner before present ih =>
      rw [withTrivia_split lead inner left first right before present]
      exact ⟨label.lead, rfl⟩

@[simp]
theorem kind_withTrivia (lead : String) (tree : Node) : (withTrivia lead tree).kind = tree.kind := by
  obtain ⟨other, same⟩ := label_withTrivia lead tree
  simp [Tree.kind, same]

@[simp]
theorem slot_withTrivia (lead : String) (tree : Node) : (withTrivia lead tree).slot = tree.slot := by
  obtain ⟨other, same⟩ := label_withTrivia lead tree
  simp [Tree.slot, same]

@[simp]
theorem isLeaf_withTrivia (lead : String) (tree : Node) :
    (withTrivia lead tree).isLeaf = tree.isLeaf := by
  obtain ⟨other, same⟩ := label_withTrivia lead tree
  simp [Tree.isLeaf, Label.isLeaf, same]

theorem children_withTrivia (lead : String) (tree : Node) :
    List.Forall₂ (fun old new => new = old ∨ new = withTrivia lead old) tree.children
      (withTrivia lead tree).children := by
  have all (trees : List Node) :
      List.Forall₂ (fun old new => new = old ∨ new = withTrivia lead old) trees trees :=
    List.forall₂_same.mpr fun tree _ => .inl rfl
  induction tree using lead_induct with
  | leaf label children leaf =>
      rw [withTrivia_leaf lead children leaf]
      exact all _
  | empty tree empty =>
      rw [withTrivia_of_leaves_nil lead empty]
      exact all _
  | split label left first right inner before present ih =>
      rw [withTrivia_split lead inner left first right before present]
      exact List.rel_append (all left) (.cons (.inr rfl) (all right))

-- The leads that a tree is given when it is moved.
def movedLeads : List String := ["", " "]

def SameButLead (old new : Node) : Prop :=
  new = old ∨ ∃ lead ∈ movedLeads, new = old.withTrivia lead

namespace SameButLead

variable {old middle new : Node}

theorem refl (tree : Node) : SameButLead tree tree := .inl rfl

theorem withTrivia (same : SameButLead old new) {lead : String} (moved : lead ∈ movedLeads) :
    SameButLead old (new.withTrivia lead) := by
  rcases same with rfl | ⟨other, _, rfl⟩
  · exact .inr ⟨lead, moved, rfl⟩
  · exact .inr ⟨lead, moved, withTrivia_withTrivia lead other old⟩

theorem trans (first : SameButLead old middle) (second : SameButLead middle new) :
    SameButLead old new := by
  rcases second with rfl | ⟨lead, moved, rfl⟩
  · exact first
  · exact first.withTrivia moved

theorem label (same : SameButLead old new) :
    ∃ lead, new.label = { old.label with lead } := by
  rcases same with rfl | ⟨lead, _, rfl⟩
  · exact ⟨new.label.lead, rfl⟩
  · exact label_withTrivia lead old

theorem kind (same : SameButLead old new) : new.kind = old.kind := by
  obtain ⟨lead, equal⟩ := same.label
  simp [Tree.kind, equal]

theorem slot (same : SameButLead old new) : new.slot = old.slot := by
  obtain ⟨lead, equal⟩ := same.label
  simp [Tree.slot, equal]

theorem isLeaf (same : SameButLead old new) : new.isLeaf = old.isLeaf := by
  obtain ⟨lead, equal⟩ := same.label
  simp [Tree.isLeaf, Label.isLeaf, equal]

theorem origin (same : SameButLead old new) : new.label.origin = old.label.origin := by
  obtain ⟨lead, equal⟩ := same.label
  simp [equal]

theorem children (same : SameButLead old new) :
    List.Forall₂ SameButLead old.children new.children := by
  rcases same with rfl | ⟨lead, moved, rfl⟩
  · exact List.forall₂_same.mpr fun tree _ => refl tree
  · refine (children_withTrivia lead old).imp fun child changed here => ?_
    rcases here with rfl | rfl
    · exact refl _
    · exact (refl child).withTrivia moved

end SameButLead

theorem head?_leaves_split {label : Label} (inner : label.isLeaf = false) {left right : List Node}
    {first : Node} (before : ∀ tree ∈ left, tree.leaves = []) (present : first.leaves ≠ []) :
    (node label (left ++ first :: right)).leaves.head? = first.leaves.head? := by
  have none : left.flatMap leaves = [] := by simpa using before
  rw [leaves_branch _ _ inner]
  simp only [List.flatMap_append, List.flatMap_cons, none, List.nil_append]
  exact List.head?_append_of_ne_nil _ present

theorem Below.withTrivia {holds : Label → Node → Prop} {allowed : Label → Prop} {lead : String}
    (parents : ∀ {parent tree} lead, holds parent tree → holds { parent with lead } tree)
    (leads : ∀ {parent tree}, holds parent tree → (∀ first ∈ tree.leaves.head?, allowed first) →
      holds parent (tree.withTrivia lead))
    {tree : Node} (below : Below holds tree) (first : ∀ first ∈ tree.leaves.head?, allowed first) :
    Below holds (tree.withTrivia lead) := by
  -- A lead that the first token may have does not disturb what holds below the root.
  induction tree using lead_induct with
  | leaf label children leaf =>
      rw [withTrivia_leaf lead children leaf]
      exact below.relabel fun child => parents lead
  | empty tree empty => rwa [withTrivia_of_leaves_nil lead empty]
  | split label left first' right inner before present ih =>
      rw [head?_leaves_split inner before present] at first
      rw [withTrivia_split lead inner left first' right before present]
      rw [below_iff] at below ⊢
      intro child member
      rcases (by simpa using member : child ∈ left ∨ child = first'.withTrivia lead ∨ child ∈ right)
        with earlier | rfl | later
      · exact below child (by simp [earlier])
      · have here := below first' (by simp)
        exact ⟨leads here.1 first, ih here.2 first⟩
      · exact below child (by simp [later])

end Tree

end ScriptTyping
