import ScriptTyping.Proofs.Node.Slots
import ScriptTyping.Proofs.Walk.Budget
import ScriptTyping.Rule.Functions

set_option autoImplicit false

namespace ScriptTyping

open ScriptTyping.Tree

namespace Rule

-- The most that the rules add for a node: an annotation (3), the tokens of a quoted source (3), the
-- annotation of a parameter with a name, a statement and a block around the body (3 + 1 + 9 + 6), or a
-- list around a bare parameter (4 + 19). An annotation or tokens that are there count already.
def allowance (tree : Node) (typed all : Nat) : Nat :=
  if tree.kind = "variable_declarator" then 3 - typed
  else if tree.kind = "string" then 3 - all
  else if tree.kind ∈ Functions.parameterKinds then if tree.hasChild "type" then 0 else 19
  else if tree.kind ∈ Functions.kinds then
    (if tree.hasChild "return_type" then 0 else 3) + if tree.hasChild "parameters" then 0 else 23
  else 0

mutual

def extent : Node → Nat
  | .node label children =>
      1 + allowance (.node label children) (extentOf (Children.inSlot "type") children)
          (extentOf (fun _ => true) children) + extentOf (fun _ => true) children

def extentOf (counts : Node → Bool) : List Node → Nat
  | [] => 0
  | tree :: rest => (if counts tree then extent tree else 0) + extentOf counts rest

end

def extents (trees : List Node) : Nat := total extent trees

def typeExtents (trees : List Node) : Nat := extents (trees.filter (Children.inSlot "type"))

@[simp]
theorem extents_nil : extents [] = 0 := rfl

@[simp]
theorem extents_cons (tree : Node) (rest : List Node) :
    extents (tree :: rest) = extent tree + extents rest := rfl

@[simp]
theorem extents_append (left right : List Node) :
    extents (left ++ right) = extents left + extents right := by
  induction left with
  | nil => simp
  | cons tree rest ih => simp [ih, Nat.add_assoc]

theorem extentOf_eq (counts : Node → Bool) (trees : List Node) :
    extentOf counts trees = extents (trees.filter counts) := by
  induction trees with
  | nil => rfl
  | cons tree rest ih =>
      rw [extentOf, ih]
      cases present : counts tree <;> simp [present]

theorem extent_eq (tree : Node) :
    extent tree = 1 + allowance tree (typeExtents tree.children) (extents tree.children) +
      extents tree.children := by
  obtain ⟨label, children⟩ := tree
  rw [extent, extentOf_eq, extentOf_eq, List.filter_true]
  rfl

def growingKinds : List String :=
  "variable_declarator" :: "string" :: Functions.parameterKinds ++ Functions.kinds

variable {tree : Node}

theorem extent_plain (plain : tree.kind ∉ growingKinds) :
    extent tree = 1 + extents tree.children := by
  simp only [growingKinds, List.mem_cons, List.mem_append, not_or] at plain
  obtain ⟨⟨declarator, string, parameter⟩, function⟩ := plain
  simp [extent_eq, allowance, declarator, string, parameter, function]

theorem extent_declarator (kind : tree.kind = "variable_declarator") :
    extent tree = 1 + (3 - typeExtents tree.children) + extents tree.children := by
  simp [extent_eq, allowance, kind]

theorem extent_string (kind : tree.kind = "string") :
    extent tree = 1 + (3 - extents tree.children) + extents tree.children := by
  simp [extent_eq, allowance, kind]

theorem extent_parameter (kind : tree.kind ∈ Functions.parameterKinds) :
    extent tree = 1 + (if tree.hasChild "type" then 0 else 19) + extents tree.children := by
  have declarator : tree.kind ≠ "variable_declarator" := fun same => by
    rw [same] at kind
    exact absurd kind (by decide)
  have string : tree.kind ≠ "string" := fun same => by
    rw [same] at kind
    exact absurd kind (by decide)
  simp [extent_eq, allowance, declarator, string, kind]

theorem extent_function (kind : tree.kind ∈ Functions.kinds) :
    extent tree = 1 + ((if tree.hasChild "return_type" then 0 else 3) +
      if tree.hasChild "parameters" then 0 else 23) + extents tree.children := by
  simp only [Functions.kinds, List.mem_cons, List.not_mem_nil, or_false] at kind
  rcases kind with kind | kind | kind | kind | kind | kind | kind <;>
    simp [extent_eq, allowance, Functions.parameterKinds, Functions.kinds, kind]

theorem allowance_le (tree : Node) (typed all : Nat) : allowance tree typed all ≤ 26 := by
  unfold allowance
  repeat' split
  all_goals omega

theorem extent_le (tree : Node) : extent tree ≤ 27 * tree.size := by
  induction tree using induct with
  | node label children ih =>
      have below : extents children ≤ 27 * sizeAll children := by
        induction children with
        | nil => simp
        | cons child rest later =>
            have here := ih child (by simp)
            have there := later fun other member => ih other (by simp [member])
            simp only [extents_cons, sizeAll]
            omega
      have own := allowance_le (.node label children) (typeExtents children) (extents children)
      rw [extent_eq, size]
      simp only [children_node]
      omega

-- The children after a change, with the extent that is spared for other places. A child that gives
-- some of its extent away is still as large as an annotation.
inductive Spares : List Node → List Node → Nat → Prop where
  | nil : Spares [] [] 0
  | cons {old new : Node} {olds news : List Node} {spare more : Nat} (slot : new.slot = old.slot)
      (less : extent new + spare ≤ extent old) (large : spare = 0 ∨ 3 ≤ extent new)
      (later : Spares olds news more) : Spares (old :: olds) (new :: news) (spare + more)

namespace Spares

variable {olds news : List Node} {spare : Nat}

theorem same (trees : List Node) : Spares trees trees 0 := by
  induction trees with
  | nil => exact .nil
  | cons tree rest ih => exact .cons rfl (Nat.le_refl _) (.inl rfl) ih

theorem one {old new : Node} (slot : new.slot = old.slot) (less : extent new ≤ extent old)
    (left right : List Node) : Spares (left ++ old :: right) (left ++ new :: right) 0 := by
  induction left with
  | nil => exact .cons slot less (.inl rfl) (same right)
  | cons tree rest ih => exact .cons rfl (Nat.le_refl _) (.inl rfl) ih

theorem slots (spares : Spares olds news spare) :
    List.Forall₂ (fun old new => new.slot = old.slot) olds news := by
  induction spares with
  | nil => exact .nil
  | cons slot _ _ _ ih => exact .cons slot ih

theorem extents_filter_le (spares : Spares olds news spare) (counts : Node → Bool)
    (slots : ∀ {old new : Node}, new.slot = old.slot → counts new = counts old) (limit : Nat)
    (small : limit ≤ 3) :
    (limit - extents (news.filter counts)) + extents news + spare ≤
      (limit - extents (olds.filter counts)) + extents olds := by
  -- Each child that counts takes its extent from what is left of the limit.
  induction spares generalizing limit with
  | nil => simp
  | @cons old new olds news spare more slot less large later ih =>
      rw [List.filter_cons, List.filter_cons, slots slot]
      split
      next =>
        have there := ih (limit - extent new) (by omega)
        simp only [extents_cons]
        omega
      next =>
        have there := ih limit small
        simp only [extents_cons]
        omega

end Spares

theorem extent_spares {old new : Node} {spare : Nat} (kind : new.kind = old.kind)
    (spares : Spares old.children new.children spare) : extent new + spare ≤ extent old := by
  have slots (slot : String) := hasChild_related (fun pair => pair) spares.slots slot
  have all (limit : Nat) (small : limit ≤ 3) :=
    spares.extents_filter_le (fun _ => true) (fun _ => rfl) limit small
  simp only [List.filter_true] at all
  by_cases declarator : old.kind = "variable_declarator"
  · have less := spares.extents_filter_le (Children.inSlot "type")
      (fun slot => by simp [Children.inSlot, slot]) 3 (Nat.le_refl 3)
    rw [extent_declarator declarator, extent_declarator (kind.trans declarator), typeExtents,
      typeExtents]
    omega
  by_cases string : old.kind = "string"
  · have less := all 3 (Nat.le_refl 3)
    rw [extent_string string, extent_string (kind.trans string)]
    omega
  have less := all 0 (Nat.zero_le 3)
  by_cases parameter : old.kind ∈ Functions.parameterKinds
  · rw [extent_parameter parameter, extent_parameter (by rwa [kind]), slots]
    omega
  by_cases function : old.kind ∈ Functions.kinds
  · rw [extent_function function, extent_function (by rwa [kind]), slots, slots]
    omega
  have plain : old.kind ∉ growingKinds := by
    simp only [growingKinds, List.mem_cons, List.mem_append, not_or]
    exact ⟨⟨declarator, string, parameter⟩, function⟩
  rw [extent_plain plain, extent_plain (by rwa [kind])]
  omega

theorem extent_relabel {label other : Label} (kind : other.kind = label.kind)
    (children : List Node) : extent (.node other children) ≤ extent (.node label children) :=
  @extent_spares (.node label children) (.node other children) 0 kind (.same children)

theorem extent_withSlot (tree : Node) (slot : Option String) :
    extent (tree.withSlot slot) ≤ extent tree := by
  obtain ⟨label, children⟩ := tree
  exact extent_relabel rfl children

theorem extent_withTrivia (lead : String) (tree : Node) :
    extent (tree.withTrivia lead) ≤ extent tree := by
  induction tree using lead_induct with
  | leaf label children leaf =>
      rw [withTrivia_leaf lead children leaf]
      exact extent_relabel rfl children
  | empty tree empty => exact Nat.le_of_eq (by rw [withTrivia_of_leaves_nil lead empty])
  | split label left first right inner before present ih =>
      rw [withTrivia_split lead inner left first right before present]
      obtain ⟨other, same⟩ := label_withTrivia lead first
      have slot : (first.withTrivia lead).slot = first.slot := by simp [Tree.slot, same]
      exact @extent_spares (.node label _) (.node label _) 0 rfl (.one slot ih left right)

theorem extents_withTrivia (lead : String) (trees : List Node) :
    extents (trees.map (Tree.withTrivia lead)) ≤ extents trees := by
  induction trees with
  | nil => simp
  | cons tree rest ih =>
      have here := extent_withTrivia lead tree
      simp only [List.map_cons, extents_cons]
      omega

theorem extent_hint (hint : TypeHint) (slot : Option String) : extent (hint.toNode slot) = 3 := by
  cases hint <;> rfl

theorem extent_le_extents {child : Node} {trees : List Node} (member : child ∈ trees) :
    extent child ≤ extents trees := by
  obtain ⟨left, right, rfl⟩ := List.append_of_mem member
  simp only [extents_append, extents_cons]
  omega

theorem extents_insertAfterMarked (anchor mark : String) (inserted : Node) (children : List Node) :
    extents (Children.insertAfterMarked anchor mark inserted children) ≤
      extents children + extent inserted := by
  induction children with
  | nil => simp [Children.insertAfterMarked]
  | cons child rest ih =>
      rw [Children.insertAfterMarked]
      split
      next =>
        obtain ⟨left, right, rfl, behind⟩ := Children.insertBehind_eq mark inserted rest
        simp only [behind, extents_cons, extents_append]
        omega
      next =>
        simp only [extents_cons]
        omega

theorem extents_insertAfter (anchor : String) (inserted : Node) (children : List Node) :
    extents (Children.insertAfter anchor inserted children) ≤
      extents children + extent inserted := by
  induction children with
  | nil => simp [Children.insertAfter]
  | cons child rest ih =>
      rw [Children.insertAfter]
      split <;> simp only [extents_cons] <;> omega

theorem extent_leaf {kind : String} (plain : kind ∉ growingKinds) (token lead : String)
    (slot : Option String) : extent (.leaf kind token lead slot) = 1 :=
  @extent_plain (.leaf kind token lead slot) plain

theorem extent_branch {kind : String} (plain : kind ∉ growingKinds) (children : List Node)
    (slot : Option String) : extent (.branch kind children slot) = 1 + extents children :=
  @extent_plain (.branch kind children slot) plain

theorem extent_mark {token : String} (plain : token ∉ growingKinds) (lead : String) :
    extent (.mark token lead) = 1 := extent_leaf plain _ _ _

end Rule

end ScriptTyping
