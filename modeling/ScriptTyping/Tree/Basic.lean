set_option autoImplicit false

namespace ScriptTyping

inductive Tree (α : Type) where
  | node (label : α) (children : List (Tree α))

namespace Tree

variable {α β : Type}

def label : Tree α → α
  | node label _ => label

def children : Tree α → List (Tree α)
  | node _ children => children

@[simp]
theorem label_node (label : α) (children : List (Tree α)) :
    (node label children).label = label := rfl

@[simp]
theorem children_node (label : α) (children : List (Tree α)) :
    (node label children).children = children := rfl

instance [Inhabited α] : Inhabited (Tree α) := ⟨node default []⟩

mutual

def size : Tree α → Nat
  | node _ children => 1 + sizeAll children

def sizeAll : List (Tree α) → Nat
  | [] => 0
  | tree :: rest => size tree + sizeAll rest

end

theorem sizeAll_append (left right : List (Tree α)) :
    sizeAll (left ++ right) = sizeAll left + sizeAll right := by
  induction left with
  | nil => simp [sizeAll]
  | cons tree rest ih => simp [sizeAll, ih, Nat.add_assoc]

@[elab_as_elim, induction_eliminator]
theorem induct {motive : Tree α → Prop}
    (node : ∀ label children, (∀ child ∈ children, motive child) →
      motive (.node label children)) (tree : Tree α) : motive tree :=
  match tree with
  | .node label children => node label children fun child _ => induct node child

mutual

def preorder : Tree α → List (α × Nat)
  | node label children => (label, children.length) :: preorderAll children

def preorderAll : List (Tree α) → List (α × Nat)
  | [] => []
  | tree :: rest => preorder tree ++ preorderAll rest

end

theorem preorderAll_append (left right : List (Tree α)) :
    preorderAll (left ++ right) = preorderAll left ++ preorderAll right := by
  induction left with
  | nil => simp [preorderAll]
  | cons tree rest ih => simp [preorderAll, ih]

theorem length_preorderAll (trees : List (Tree α))
    (each : ∀ tree ∈ trees, tree.preorder.length = tree.size) :
    (preorderAll trees).length = sizeAll trees := by
  induction trees with
  | nil => rfl
  | cons tree rest ih =>
      have here := each tree (by simp)
      have there := ih fun other present => each other (by simp [present])
      simp [preorderAll, sizeAll, here, there]

theorem length_preorder (tree : Tree α) : tree.preorder.length = tree.size := by
  induction tree with
  | node label children ih =>
      simp [preorder, size, length_preorderAll children ih, Nat.add_comm]

def rowsFrom (pending : List (Tree α)) (written : Array (α × Nat)) : Array (α × Nat) :=
  match pending with
  | [] => written
  | node label children :: rest =>
      rowsFrom (children ++ rest) (written.push (label, children.length))
termination_by sizeAll pending
decreasing_by
  simp only [sizeAll, size, sizeAll_append]
  omega

theorem toList_rowsFrom (pending : List (Tree α)) (written : Array (α × Nat)) :
    (rowsFrom pending written).toList = written.toList ++ preorderAll pending := by
  fun_induction rowsFrom pending written with
  | case1 written => simp [preorderAll]
  | case2 written label children rest ih =>
      simp [ih, preorderAll, preorder, preorderAll_append]

def rows (tree : Tree α) : Array (α × Nat) := rowsFrom [tree] #[]

@[simp]
theorem toList_rows (tree : Tree α) : tree.rows.toList = tree.preorder := by
  simp [rows, toList_rowsFrom, preorderAll]

theorem size_rows (tree : Tree α) : tree.rows.size = tree.size := by
  rw [← Array.length_toList, toList_rows, length_preorder]

def gather (row : α × Nat) (trees : List (Tree α)) : List (Tree α) :=
  node row.1 (trees.take row.2) :: trees.drop row.2

def forest (rows : List (α × Nat)) : List (Tree α) := rows.foldr gather []

-- Reads the flat form of a tree. A count larger than what follows takes all that follows.
def ofRows? (rows : List (α × Nat)) : Option (Tree α) := (forest rows).head?

theorem foldr_gather_preorderAll (trees after : List (Tree α))
    (each : ∀ tree ∈ trees, ∀ after, tree.preorder.foldr gather after = tree :: after) :
    (preorderAll trees).foldr gather after = trees ++ after := by
  induction trees with
  | nil => rfl
  | cons tree rest ih =>
      have there := ih fun other present => each other (by simp [present])
      simp [preorderAll, there, each tree (by simp)]

theorem foldr_gather_preorder (tree : Tree α) (after : List (Tree α)) :
    tree.preorder.foldr gather after = tree :: after := by
  induction tree generalizing after with
  | node label children ih =>
      have below := foldr_gather_preorderAll children after fun child present => ih child present
      simp [preorder, below, gather]

@[simp]
theorem ofRows?_preorder (tree : Tree α) : ofRows? tree.preorder = some tree := by
  simp [ofRows?, forest, foldr_gather_preorder]

theorem ofRows?_rows (tree : Tree α) : ofRows? tree.rows.toList = some tree := by
  simp

def fringeFrom (ends : α → Bool) (pending : List (Tree α)) (found : Array α) : Array α :=
  match pending with
  | [] => found
  | node label children :: rest =>
      if ends label then fringeFrom ends rest (found.push label)
      else fringeFrom ends (children ++ rest) found
termination_by sizeAll pending
decreasing_by
  all_goals
    simp only [sizeAll, size, sizeAll_append]
    omega

-- The labels at which a descent ends, from left to right. Nothing below such a label counts.
def fringe (ends : α → Bool) (tree : Tree α) : List α := (fringeFrom ends [tree] #[]).toList

theorem fringeFrom_append (ends : α → Bool) (pending rest : List (Tree α)) (found : Array α) :
    fringeFrom ends (pending ++ rest) found =
      fringeFrom ends rest (fringeFrom ends pending found) := by
  fun_induction fringeFrom ends pending found with
  | case1 found => simp
  | case2 found label children others present ih =>
      rw [List.cons_append, fringeFrom]
      simp [present, ih]
  | case3 found label children others absent ih =>
      rw [List.cons_append, fringeFrom]
      simp [absent, ← ih]

theorem fringeFrom_more (ends : α → Bool) (pending : List (Tree α)) (found more : Array α) :
    fringeFrom ends pending (found ++ more) = found ++ fringeFrom ends pending more := by
  fun_induction fringeFrom ends pending more with
  | case1 more => simp [fringeFrom]
  | case2 more label children others present ih =>
      rw [fringeFrom]
      simpa [present] using ih
  | case3 more label children others absent ih =>
      rw [fringeFrom]
      simpa [absent] using ih

theorem toList_fringeFrom (ends : α → Bool) (pending : List (Tree α)) :
    (fringeFrom ends pending #[]).toList = pending.flatMap (fringe ends) := by
  induction pending with
  | nil => simp [fringeFrom]
  | cons tree rest ih =>
      have split := fringeFrom_append ends [tree] rest #[]
      have moved := fringeFrom_more ends rest (fringeFrom ends [tree] #[]) #[]
      simp only [Array.append_empty] at moved
      simp only [List.singleton_append] at split
      rw [split, moved]
      simp [ih, fringe]

theorem fringe_end (ends : α → Bool) (label : α) (children : List (Tree α))
    (present : ends label = true) : (node label children).fringe ends = [label] := by
  simp [fringe, fringeFrom, present]

theorem fringe_inner (ends : α → Bool) (label : α) (children : List (Tree α))
    (absent : ends label = false) :
    (node label children).fringe ends = children.flatMap (fringe ends) := by
  rw [fringe, fringeFrom]
  simp [absent, toList_fringeFrom]

def firstOf (ends : α → Bool) (pending : List (Tree α)) : Option α :=
  match pending with
  | [] => none
  | node label children :: rest =>
      if ends label then some label else firstOf ends (children ++ rest)
termination_by sizeAll pending
decreasing_by
  simp only [sizeAll, size, sizeAll_append]
  omega

theorem firstOf_eq (ends : α → Bool) (pending : List (Tree α)) :
    firstOf ends pending = (pending.flatMap (fringe ends)).head? := by
  fun_induction firstOf ends pending with
  | case1 => rfl
  | case2 label children rest present => simp [fringe_end, present]
  | case3 label children rest absent ih =>
      simp [ih, fringe_inner ends label children (by simpa using absent)]

def first? (ends : α → Bool) (tree : Tree α) : Option α := firstOf ends [tree]

theorem first?_eq (ends : α → Bool) (tree : Tree α) :
    tree.first? ends = (tree.fringe ends).head? := by
  simp [first?, firstOf_eq]

end Tree

end ScriptTyping
