import ScriptTyping.Proofs.Node.Numbers
import ScriptTyping.Proofs.Pairs
import ScriptTyping.Proofs.Rule.Signature

set_option autoImplicit false

namespace ScriptTyping

def Label.Moved (old new : Label) : Prop := ∃ slot lead, new = { old with slot, lead }

namespace Label.Moved

variable {old middle new : Label}

theorem refl (label : Label) : Moved label label := ⟨_, _, rfl⟩

theorem trans (first : Moved old middle) (second : Moved middle new) : Moved old new := by
  obtain ⟨_, _, rfl⟩ := first
  obtain ⟨_, _, rfl⟩ := second
  exact ⟨_, _, rfl⟩

theorem kind (moved : Moved old new) : new.kind = old.kind := by
  obtain ⟨_, _, rfl⟩ := moved
  rfl

theorem token (moved : Moved old new) : new.token = old.token := by
  obtain ⟨_, _, rfl⟩ := moved
  rfl

theorem origin (moved : Moved old new) : new.origin = old.origin := by
  obtain ⟨_, _, rfl⟩ := moved
  rfl

end Label.Moved

namespace Tree

def isParameter (tree : Node) : Bool := Functions.parameterKinds.contains tree.kind

structure Reworked (old new : Node) : Prop where
  parameter : old.isParameter = true
  label : ∃ lead, new.label = { old.label with lead }
  parameters : List.Forall₂ SameButLead (old.children.filter isParameter)
    (new.children.filter isParameter)
  first : ∀ first ∈ new.leaves.head?, first.origin = none ∨
    ∃ token ∈ old.leaves.head?, token.origin = first.origin
  colon : ∃ token ∈ new.leaves, token.token = some ":"
  numbers : new.numbers.Sublist old.numbers

def Touched (old new : Node) : Prop := SameButLead old new ∨ Reworked old new

structure Faithful (old new : Node) : Prop where
  label : old.label.Moved new.label
  children : List.Forall₂ SameButLead old.children new.children

structure Inherits (old new : Node) : Prop where
  label : old.label.Moved new.label
  children : List.Forall₂ Touched old.children new.children

theorem SameButLead.first {old new : Node} (same : SameButLead old new) :
    ∀ first ∈ new.leaves.head?, ∃ token ∈ old.leaves.head?, token.origin = first.origin := by
  intro first present
  rcases same with rfl | ⟨lead, _, rfl⟩
  · exact ⟨first, present, rfl⟩
  · rw [leaves_withTrivia] at present
    cases tokens : old.leaves with
    | nil => simp [tokens, Label.releadFirst] at present
    | cons token rest =>
        refine ⟨token, by simp, ?_⟩
        simp only [tokens, Label.releadFirst, List.head?_cons, Option.mem_some_iff] at present
        simp [← present]

theorem SameButLead.filter_parameters {olds news : List Node}
    (pairs : List.Forall₂ SameButLead olds news) :
    List.Forall₂ SameButLead (olds.filter isParameter) (news.filter isParameter) := by
  induction pairs with
  | nil => exact .nil
  | @cons old new olds news here later ih =>
      have kinds : new.isParameter = old.isParameter := by simp [isParameter, here.kind]
      cases parameter : old.isParameter with
      | true => simpa [kinds, parameter] using List.Forall₂.cons here ih
      | false => simpa [kinds, parameter] using ih

theorem leaves_hint (hint : TypeHint) (slot : Option String) :
    (hint.toNode slot).leaves =
      [(mark ":" "").label, (leaf hint.typeKind hint.typeText " " none).label] := by
  simp [TypeHint.toNode]

@[simp]
theorem numbers_hint (hint : TypeHint) (slot : Option String) : (hint.toNode slot).numbers = [] := by
  simp [TypeHint.toNode]

theorem head?_inserted {front back : List Label} {made first : Label} (rest : List Label)
    (present : (front ++ made :: back).head? = some first) :
    first = made ∨ (front ++ rest).head? = some first := by
  cases front with
  | nil => exact .inl (Option.some.inj present).symm
  | cons token others => exact .inr present

theorem Reworked.of_typed {old child pattern chosen : Node} {left middle rest : List Node}
    (same : SameButLead old child) (parameter : child.isParameter = true)
    (inner : child.isLeaf = false) (split : child.children = left ++ pattern :: (middle ++ rest))
    (choice : chosen = pattern ∨ (pattern.isParameter = false ∧ chosen.isParameter = false ∧
      ∃ token, chosen.leaves = [token] ∧ token.origin = none)) :
    Reworked old (child.withChildren (left ++ chosen ::
      (middle ++ TypeHint.unknown.toNode (some "type") :: rest))) := by
  -- A parameter keeps its first token when an annotation is put behind its pattern, unless a new
  -- token comes in front.
  obtain ⟨label, children⟩ := child
  rw [children_node] at split
  subst split
  change label.isLeaf = false at inner
  have tokens (chosen : Node) (rest : List Node) :
      (node label (left ++ chosen :: (middle ++ rest))).leaves = left.flatMap leaves ++
        (chosen.leaves ++ (middle.flatMap leaves ++ rest.flatMap leaves)) := by
    simp [leaves_branch _ _ inner]
  have hint : (TypeHint.unknown.toNode (some "type")).isParameter = false := by decide
  refine ⟨?_, same.label, ?_, ?_, ?_, ?_⟩
  · simpa [isParameter, same.kind] using parameter
  · have pairs := SameButLead.filter_parameters same.children
    rcases choice with rfl | ⟨structural, named, _⟩
    · simpa [withChildren, List.filter_cons, hint] using pairs
    · simpa [withChildren, List.filter_cons, hint, structural, named] using pairs
  · intro first present
    have known : first.origin = none ∨
        first ∈ (node label (left ++ pattern :: (middle ++ rest))).leaves.head? := by
      rw [withChildren, label_node, tokens, List.flatMap_cons, leaves_hint] at present
      rw [tokens]
      rcases choice with rfl | ⟨_, _, token, single, made⟩
      · simp only [List.cons_append, List.nil_append, ← List.append_assoc] at present ⊢
        rcases head?_inserted _ present with rfl | kept
        · exact .inl rfl
        · exact .inr kept
      · rw [single] at present
        rcases head?_inserted _ present with rfl | kept
        · exact .inl made
        · exact .inr kept
    rcases known with made | kept
    · exact .inl made
    · exact .inr (same.first first kept)
  · refine ⟨(mark ":" "").label, ?_, rfl⟩
    simp [withChildren, tokens, leaves_hint]
  · have fewer : chosen.numbers.Sublist pattern.numbers := by
      rcases choice with rfl | ⟨_, _, token, single, made⟩
      · exact .refl _
      · simp [Tree.numbers, single, made]
    rw [← same.numbers, @numbers_withChildren (node label _) inner, @numbers_inner (node label _) inner]
    simp only [children_node, List.flatMap_append, List.flatMap_cons, numbers_hint, List.nil_append]
    exact (List.Sublist.refl _).append (fewer.append (.refl _))

namespace Touched

variable {old new : Node}

theorem label (touched : Touched old new) : ∃ lead, new.label = { old.label with lead } := by
  rcases touched with same | reworked
  · exact same.label
  · exact reworked.label

theorem kind (touched : Touched old new) : new.kind = old.kind := by
  obtain ⟨lead, equal⟩ := touched.label
  simp [Tree.kind, equal]

theorem slot (touched : Touched old new) : new.slot = old.slot := by
  obtain ⟨lead, equal⟩ := touched.label
  simp [Tree.slot, equal]

theorem isLeaf (touched : Touched old new) : new.isLeaf = old.isLeaf := by
  obtain ⟨lead, equal⟩ := touched.label
  simp [Tree.isLeaf, Label.isLeaf, equal]

theorem same (touched : Touched old new) (other : new.isParameter = false) :
    SameButLead old new := by
  rcases touched with same | reworked
  · exact same
  · have parameter := reworked.parameter
    rw [isParameter, ← kind (.inr reworked)] at parameter
    exact absurd parameter (by simpa [isParameter] using other)

theorem numbers (touched : Touched old new) : new.numbers.Sublist old.numbers := by
  rcases touched with same | reworked
  · rw [same.numbers]
  · exact reworked.numbers

theorem first (touched : Touched old new) : ∀ first ∈ new.leaves.head?, first.origin = none ∨
    ∃ token ∈ old.leaves.head?, token.origin = first.origin := by
  rcases touched with same | reworked
  · exact fun first present => .inr (same.first first present)
  · exact reworked.first

end Touched

theorem Touched.parameter_of_mem {old new child : Node} (touched : Touched old new)
    (member : child ∈ new.children) (parameter : child.isParameter = true) :
    ∃ found ∈ old.children, SameButLead found child := by
  rcases touched with same | reworked
  · exact same.children.exists_of_mem_right member
  · have kept := List.mem_filter.mpr ⟨member, parameter⟩
    obtain ⟨found, present, same⟩ := reworked.parameters.exists_of_mem_right kept
    exact ⟨found, (List.mem_filter.mp present).1, same⟩

def Relocated (old new : Node) : Prop :=
  ∃ same slot, SameButLead old same ∧ new = same.withSlot slot

theorem SameButLead.relocated {old new : Node} (same : SameButLead old new) : Relocated old new :=
  ⟨new, new.slot, same, by cases new; rfl⟩

theorem leaves_withSlot (tree : Node) (slot : Option String) :
    (tree.withSlot slot).leaves =
      if tree.isLeaf = true then [{ tree.label with slot }] else tree.leaves := by
  obtain ⟨label, children⟩ := tree
  cases leaf : label.isLeaf with
  | true => simpa [withSlot, Tree.isLeaf, leaf] using leaves_leaf { label with slot } children leaf
  | false =>
      rw [leaves_branch label children leaf]
      simpa [withSlot, Tree.isLeaf, leaf] using leaves_branch { label with slot } children leaf

theorem Relocated.numbers {old new : Node} (relocated : Relocated old new) :
    new.numbers = old.numbers := by
  obtain ⟨same, slot, pair, rfl⟩ := relocated
  rw [numbers_withSlot, pair.numbers]

theorem Relocated.first {old new : Node} (relocated : Relocated old new) :
    ∀ first ∈ new.leaves.head?, ∃ token ∈ old.leaves.head?, token.origin = first.origin := by
  obtain ⟨same, slot, pair, rfl⟩ := relocated
  intro first present
  rw [leaves_withSlot] at present
  cases leaf : same.isLeaf with
  | true =>
      simp only [leaf, if_true, List.head?_cons, Option.mem_some_iff] at present
      subst present
      obtain ⟨label, children⟩ := same
      exact pair.first label (by simp [leaves_leaf label children leaf])
  | false =>
      simp only [leaf, Bool.false_eq_true, if_false] at present
      exact pair.first first present

namespace Faithful

variable {old new : Node}

theorem refl (tree : Node) : Faithful tree tree where
  label := .refl _
  children := List.forall₂_same.mpr fun child _ => SameButLead.refl child

theorem inherits (faithful : Faithful old new) : Inherits old new where
  label := faithful.label
  children := faithful.children.imp fun _ _ same => .inl same

theorem withSlot (faithful : Faithful old new) (slot : Option String) :
    Faithful old (new.withSlot slot) where
  label := faithful.label.trans ⟨slot, _, rfl⟩
  children := faithful.children

theorem withTrivia (faithful : Faithful old new) {lead : String} (moved : lead ∈ movedLeads) :
    Faithful old (new.withTrivia lead) where
  label := by
    obtain ⟨other, equal⟩ := label_withTrivia lead new
    exact faithful.label.trans ⟨_, other, equal⟩
  children := by
    have same := ((SameButLead.refl new).withTrivia moved).children
    exact faithful.children.comp same fun _ _ _ => SameButLead.trans

end Faithful

namespace Inherits

variable {old new : Node}

theorem kind (inherits : Inherits old new) : new.kind = old.kind := inherits.label.kind

theorem isLeaf (inherits : Inherits old new) : new.isLeaf = old.isLeaf := by
  rw [Tree.isLeaf, Label.isLeaf, inherits.label.token]
  rfl

theorem numbers (inherits : Inherits old new) (inner : new.isLeaf = false) :
    new.numbers.Sublist old.numbers := by
  rw [numbers_inner inner, numbers_inner (inherits.isLeaf ▸ inner)]
  have pairs := inherits.children
  generalize old.children = olds at pairs
  generalize new.children = news at pairs
  induction pairs with
  | nil => exact .slnil
  | cons here later ih =>
      rw [List.flatMap_cons, List.flatMap_cons]
      exact here.numbers.append ih

theorem hasChild (inherits : Inherits old new) (slot : String) :
    new.hasChild slot = old.hasChild slot :=
  hasChild_related Touched.slot inherits.children slot

theorem child? (inherits : Inherits old new) {slot : String} {child : Node}
    (present : new.child? slot = some child) :
    ∃ found, old.child? slot = some found ∧ Touched found child := by
  rcases child?_related Touched.slot inherits.children slot with ⟨_, none⟩ | ⟨found, other, some, new, pair⟩
  · simp [none] at present
  · rw [present] at new
    cases new
    exact ⟨found, some, pair⟩

end Inherits

end Tree

end ScriptTyping
