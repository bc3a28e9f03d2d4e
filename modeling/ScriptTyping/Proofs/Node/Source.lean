import ScriptTyping.Proofs.Node.Lead

set_option autoImplicit false

namespace ScriptTyping.Tree

theorem length_lead_le (tree : Node) :
    ∀ first ∈ tree.leaves.head?, first.lead.length ≤ tree.text.length := by
  induction tree using lead_induct with
  | leaf label children leaf =>
      obtain ⟨token, present⟩ := Option.isSome_iff_exists.mp leaf
      rw [leaves_leaf label children leaf, text_leaf label children token present]
      simp
  | empty tree empty => simp [empty]
  | split label left first right inner before present ih =>
      intro token here
      rw [head?_leaves_split inner before present] at here
      have part := ih token here
      rw [text_branch _ _ (by simpa [Label.isLeaf] using inner)]
      simp only [List.map_append, List.map_cons, String.join_append, String.join_cons,
        String.length_append]
      omega

theorem length_trivia_le (tree : Node) : tree.trivia.length ≤ tree.text.length := by
  rw [trivia, firstLeaf?_eq]
  cases first : tree.leaves.head? with
  | none => simp
  | some token => exact length_lead_le tree token first

theorem trivia_eq_of_head? {first second : Node} (same : first.leaves.head? = second.leaves.head?) :
    first.trivia = second.trivia := by
  rw [trivia, trivia, firstLeaf?_eq, firstLeaf?_eq, same]

theorem text_around_leaf (tree : Node) {token : Label} (member : token ∈ tree.leaves) {text : String}
    (content : token.token = some text) :
    ∃ front back, tree.text = front ++ text ++ back ∧ tree.trivia.length ≤ front.length := by
  induction tree using induct with
  | node label children ih =>
      cases leaf : label.isLeaf with
      | true =>
          rw [leaves_leaf label children leaf, List.mem_singleton] at member
          subst member
          refine ⟨token.lead, "", by rw [text_leaf token children text content]; simp, ?_⟩
          simp [trivia, firstLeaf?_eq, leaves_leaf token children leaf]
      | false =>
          rw [leaves_branch label children leaf, List.mem_flatMap] at member
          obtain ⟨child, present, below⟩ := member
          obtain ⟨front, back, split, within⟩ := ih child present below
          obtain ⟨left, right, rfl⟩ := List.append_of_mem present
          refine ⟨String.join (left.map Tree.text) ++ front,
            back ++ String.join (right.map Tree.text) ++ label.trail, ?_, ?_⟩
          · rw [text_branch _ _ (by simpa [Label.isLeaf] using leaf)]
            simp [split, String.append_assoc]
          · rw [String.length_append]
            rcases split_at_first_leaf left with empty | ⟨early, first, late, rfl, before, here⟩
            · have nonempty : child.leaves ≠ [] := List.ne_nil_of_mem below
              rw [trivia_eq_of_head? (head?_leaves_split leaf empty nonempty)]
              omega
            · have first' : (node label (early ++ first :: late ++ child :: right)).trivia =
                  first.trivia := by
                rw [List.append_assoc, List.cons_append]
                exact trivia_eq_of_head? (head?_leaves_split leaf before here)
              have bound := length_trivia_le first
              rw [first']
              simp only [List.map_append, List.map_cons, String.join_append, String.join_cons,
                String.length_append]
              omega

theorem toList_sourceText (tree : Node) :
    tree.sourceText.toList = tree.text.toList.drop tree.trivia.length := by
  simp [sourceText]

theorem sourceText_around_leaf (tree : Node) {token : Label} (member : token ∈ tree.leaves)
    {text : String} (content : token.token = some text) :
    ∃ front back, tree.sourceText.toList = front ++ text.toList ++ back := by
  obtain ⟨front, back, split, within⟩ := text_around_leaf tree member content
  refine ⟨front.toList.drop tree.trivia.length, back.toList, ?_⟩
  rw [toList_sourceText, split]
  have long : tree.trivia.length ≤ front.toList.length := by rwa [String.length_toList]
  simp [List.drop_append_of_le_length long]

theorem length_text_withTrivia (lead : String) {tree : Node} (present : tree.leaves ≠ []) :
    (tree.withTrivia lead).text.length + tree.trivia.length = tree.text.length + lead.length := by
  induction tree using lead_induct with
  | leaf label children leaf =>
      obtain ⟨token, content⟩ := Option.isSome_iff_exists.mp leaf
      rw [withTrivia_leaf lead children leaf, text_leaf label children token content,
        text_leaf { label with lead } children token content]
      simp only [trivia, firstLeaf?_eq, leaves_leaf label children leaf, List.head?_cons,
        Option.map_some, Option.getD_some, String.length_append]
      omega
  | empty tree empty => exact absurd empty present
  | split label left first right inner before nonempty ih =>
      have part := ih nonempty
      have token : label.token = none := by simpa [Label.isLeaf] using inner
      rw [withTrivia_split lead inner left first right before nonempty, text_branch _ _ token,
        text_branch _ _ token, trivia_eq_of_head? (head?_leaves_split inner before nonempty)]
      simp only [List.map_append, List.map_cons, String.join_append, String.join_cons,
        String.length_append]
      omega

theorem trivia_withTrivia (lead : String) {tree : Node} (present : tree.leaves ≠ []) :
    (tree.withTrivia lead).trivia = lead := by
  rw [trivia, firstLeaf?_eq, leaves_withTrivia]
  cases tokens : tree.leaves with
  | nil => exact absurd tokens present
  | cons token rest => rfl

theorem length_sourceText (tree : Node) :
    tree.sourceText.length = tree.text.length - tree.trivia.length := by
  rw [← String.length_toList, toList_sourceText, List.length_drop, String.length_toList]

theorem length_sourceText_withTrivia (lead : String) (tree : Node) :
    (tree.withTrivia lead).sourceText.length = tree.sourceText.length := by
  by_cases empty : tree.leaves = []
  · rw [withTrivia_of_leaves_nil lead empty]
  · have lengths := length_text_withTrivia lead empty
    have bound := length_trivia_le (tree.withTrivia lead)
    rw [trivia_withTrivia lead empty] at bound
    rw [length_sourceText, length_sourceText, trivia_withTrivia lead empty]
    omega

def Trailless (tree : Node) : Prop := ∀ part ∈ tree.subtrees, part.label.trail = ""

theorem Trailless.child {tree child : Node} (trailless : tree.Trailless)
    (member : child ∈ tree.children) : child.Trailless :=
  fun part lower => trailless part (mem_subtrees_of_child member lower)

theorem join_text_of_empty (trees : List Node) (each : ∀ tree ∈ trees, tree.text = "") :
    String.join (trees.map Tree.text) = "" := by
  induction trees with
  | nil => rfl
  | cons tree rest ih =>
      have there := ih fun other member => each other (by simp [member])
      rw [List.map_cons, String.join_cons, each tree (by simp), there]
      rfl

theorem Trailless.text_of_leaves_nil {tree : Node} (trailless : tree.Trailless)
    (empty : tree.leaves = []) : tree.text = "" := by
  induction tree using induct with
  | node label children ih =>
      cases leaf : label.isLeaf with
      | true => simp [leaves_leaf label children leaf] at empty
      | false =>
          rw [text_branch _ _ (by simpa [Label.isLeaf] using leaf)]
          rw [leaves_eq_nil_iff_branch leaf] at empty
          have trail : label.trail = "" := trailless _ (self_mem_subtrees _)
          rw [trail, join_text_of_empty children fun child member =>
            ih child member (trailless.child member) (empty child member)]
          rfl

theorem Trailless.text_withTrivia {tree : Node} (trailless : tree.Trailless)
    (present : tree.leaves ≠ []) :
    ∃ rest, tree.text = tree.trivia ++ rest ∧
      ∀ lead, (tree.withTrivia lead).text = lead ++ rest := by
  -- The text of a tree without trails is its lead and then what does not depend on the lead.
  induction tree using lead_induct with
  | leaf label children leaf =>
      obtain ⟨token, content⟩ := Option.isSome_iff_exists.mp leaf
      refine ⟨token, ?_, fun lead => ?_⟩
      · rw [text_leaf label children token content]
        simp [trivia, firstLeaf?_eq, leaves_leaf label children leaf]
      · rw [withTrivia_leaf lead children leaf]
        exact text_leaf { label with lead } children token content
  | empty tree empty => exact absurd empty present
  | split label left first right inner before nonempty ih =>
      obtain ⟨rest, own, changed⟩ := ih (trailless.child (by simp)) nonempty
      have blank : String.join (left.map Tree.text) = "" := by
        refine join_text_of_empty left fun child member => ?_
        exact (trailless.child (by simp [member])).text_of_leaves_nil (before child member)
      have token : label.token = none := by simpa [Label.isLeaf] using inner
      refine ⟨rest ++ String.join (right.map Tree.text) ++ label.trail, ?_, fun lead => ?_⟩
      · rw [trivia_eq_of_head? (head?_leaves_split inner before nonempty), text_branch _ _ token]
        simp [blank, own, String.append_assoc]
      · rw [withTrivia_split lead inner left first right before nonempty, text_branch _ _ token]
        simp [blank, changed, String.append_assoc]

theorem Trailless.sourceText_withTrivia {tree : Node} (trailless : tree.Trailless) (lead : String) :
    (tree.withTrivia lead).sourceText = tree.sourceText := by
  by_cases empty : tree.leaves = []
  · rw [withTrivia_of_leaves_nil lead empty]
  · obtain ⟨rest, own, changed⟩ := trailless.text_withTrivia empty
    rw [sourceText, sourceText, trivia_withTrivia lead empty, changed, own]
    simp only [String.toList_append, ← String.length_toList, List.drop_left]

theorem Trailless.sourceText_eq {old new : Node} (trailless : old.Trailless)
    (same : SameButLead old new) : new.sourceText = old.sourceText := by
  rcases same with rfl | ⟨lead, _, rfl⟩
  · rfl
  · exact trailless.sourceText_withTrivia lead

end ScriptTyping.Tree
