import ScriptTyping.Tree.Basic

set_option autoImplicit false

namespace ScriptTyping

structure Label where
  -- The grammar's name for the node; a punctuation or keyword token is its own name.
  kind : String
  -- The place that the node takes in its parent.
  slot : Option String
  token : Option String
  -- The text between the preceding token and this one.
  lead : String
  -- Text after the last token below the node.
  trail : String
  -- The node's number in the tree that was read. A node that is made later has none.
  origin : Option Nat := none
deriving DecidableEq, Inhabited

abbrev Node := Tree Label

def Label.isLeaf (label : Label) : Bool := label.token.isSome

namespace Tree

def leaf (kind token lead : String) (slot : Option String) : Node :=
  node { kind, slot, token := some token, lead, trail := "" } []

def mark (token lead : String) : Node := leaf token token lead none

def branch (kind : String) (children : List Node) (slot : Option String) : Node :=
  node { kind, slot, token := none, lead := "", trail := "" } children

def kind (tree : Node) : String := tree.label.kind

def slot (tree : Node) : Option String := tree.label.slot

def isLeaf (tree : Node) : Bool := tree.label.isLeaf

def withChildren (tree : Node) (children : List Node) : Node := node tree.label children

def withSlot (tree : Node) (slot : Option String) : Node :=
  node { tree.label with slot } tree.children

def child? (tree : Node) (slot : String) : Option Node :=
  tree.children.find? fun child => child.slot == some slot

def hasChild (tree : Node) (slot : String) : Bool := (tree.child? slot).isSome

inductive Piece where
  | tree (content : Node)
  | trail (content : String)

namespace Piece

def weight : Piece → Nat
  | tree content => 2 * content.size
  | trail _ => 1

def weightAll : List Piece → Nat
  | [] => 0
  | piece :: rest => piece.weight + weightAll rest

def push (trees : List Node) (rest : List Piece) : List Piece := trees.map tree ++ rest

theorem weightAll_push (trees : List Node) (rest : List Piece) :
    weightAll (push trees rest) = 2 * sizeAll trees + weightAll rest := by
  induction trees with
  | nil => simp [push, sizeAll]
  | cons content others ih =>
      simp only [push] at ih
      simp [push, weightAll, weight, sizeAll, ih]
      omega

end Piece

def printFrom (pending : List Piece) (printed : String) : String :=
  match pending with
  | [] => printed
  | .trail content :: rest => printFrom rest (printed ++ content)
  | .tree (node label children) :: rest =>
      match label.token with
      | some token => printFrom rest (printed ++ label.lead ++ token)
      | none => printFrom (Piece.push children (.trail label.trail :: rest)) printed
termination_by Piece.weightAll pending
decreasing_by
  all_goals
    simp only [Piece.weightAll_push, Piece.weightAll, Piece.weight, size]
    omega

def text (tree : Node) : String := printFrom [.tree tree] ""

theorem printFrom_append (pending : List Piece) (printed more : String) :
    printFrom pending (printed ++ more) = printed ++ printFrom pending more := by
  fun_induction printFrom pending more with
  | case1 more => simp [printFrom]
  | case2 more content rest ih => rw [printFrom, String.append_assoc, ih]
  | case3 more label children rest token present ih =>
      rw [printFrom]
      simp only [present, String.append_assoc] at ih ⊢
      exact ih
  | case4 more label children rest absent ih =>
      rw [printFrom]
      simp only [absent]
      exact ih

theorem printFrom_eq (pending : List Piece) (printed : String) :
    printFrom pending printed = printed ++ printFrom pending "" := by
  simpa using printFrom_append pending printed ""

theorem printFrom_both (pending rest : List Piece) (printed : String) :
    printFrom (pending ++ rest) printed = printFrom pending printed ++ printFrom rest "" := by
  fun_induction printFrom pending printed with
  | case1 printed => simpa using printFrom_eq rest printed
  | case2 printed content others ih => rw [List.cons_append, printFrom, ih]
  | case3 printed label children others token present ih =>
      rw [List.cons_append, printFrom]
      simp only [present]
      exact ih
  | case4 printed label children others absent ih =>
      rw [List.cons_append, printFrom]
      simp only [absent]
      simpa [Piece.push] using ih

theorem printFrom_push (trees : List Node) (rest : List Piece) :
    printFrom (Piece.push trees rest) "" =
      String.join (trees.map text) ++ printFrom rest "" := by
  induction trees with
  | nil => simp [Piece.push]
  | cons tree others ih =>
      have first := printFrom_both [.tree tree] (Piece.push others rest) ""
      simp only [Piece.push] at ih first ⊢
      simpa [ih, text, String.append_assoc] using first

theorem text_leaf (label : Label) (children : List Node) (token : String)
    (present : label.token = some token) :
    (node label children).text = label.lead ++ token := by
  simp [text, printFrom, present]

theorem text_branch (label : Label) (children : List Node) (absent : label.token = none) :
    (node label children).text = String.join (children.map text) ++ label.trail := by
  rw [text, printFrom]
  simp [absent, printFrom_push, printFrom]

-- The tokens of a tree in source order. Nothing below a leaf counts.
def leaves (tree : Node) : List Label := tree.fringe Label.isLeaf

theorem leaves_leaf (label : Label) (children : List Node) (present : label.isLeaf = true) :
    (node label children).leaves = [label] :=
  fringe_end Label.isLeaf label children present

theorem leaves_branch (label : Label) (children : List Node) (absent : label.isLeaf = false) :
    (node label children).leaves = children.flatMap leaves :=
  fringe_inner Label.isLeaf label children absent

def firstLeaf? (tree : Node) : Option Label := tree.first? Label.isLeaf

theorem firstLeaf?_eq (tree : Node) : tree.firstLeaf? = tree.leaves.head? :=
  first?_eq Label.isLeaf tree

def trivia (tree : Node) : String := (tree.firstLeaf?.map (·.lead)).getD ""

-- The text without as many characters as stand in front of the first token.
def sourceText (tree : Node) : String :=
  String.ofList (tree.text.toList.drop tree.trivia.length)

mutual

def withTrivia? (lead : String) : Node → Option Node
  | node label children =>
      if label.isLeaf then some (node { label with lead } children)
      else (withTriviaIn? lead children).map (node label)

def withTriviaIn? (lead : String) : List Node → Option (List Node)
  | [] => none
  | tree :: rest =>
      match withTrivia? lead tree with
      | some changed => some (changed :: rest)
      | none => (withTriviaIn? lead rest).map (tree :: ·)

end

def withTrivia (lead : String) (tree : Node) : Node := (withTrivia? lead tree).getD tree

end Tree

end ScriptTyping
