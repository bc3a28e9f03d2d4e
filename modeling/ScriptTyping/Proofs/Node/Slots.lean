import ScriptTyping.Node.Edit
import ScriptTyping.Proofs.Node.Lead
import Mathlib.Tactic.Tauto

set_option autoImplicit false

namespace ScriptTyping

namespace Children

variable {slot mark : String} {left right : List Node} {found inserted : Node}

theorem inSlot_iff (slot : String) (child : Node) :
    inSlot slot child = true ↔ child.slot = some slot := by
  simp [inSlot]

theorem inSlot_congr (slot : String) {old new : Node} (same : new.slot = old.slot) :
    inSlot slot new = inSlot slot old := by
  simp [inSlot, same]

theorem modify_split (change : Node → Node) (before : ∀ child ∈ left, inSlot slot child = false)
    (present : inSlot slot found = true) :
    modify slot change (left ++ found :: right) = left ++ change found :: right := by
  induction left with
  | nil => simp [modify, present]
  | cons child rest ih =>
      have there := ih fun other member => before other (by simp [member])
      simp [modify, before child (by simp), there]

theorem mem_modify {change : Node → Node} {children : List Node} {child : Node}
    (member : child ∈ modify slot change children) :
    child ∈ children ∨ ∃ old ∈ children, inSlot slot old = true ∧ child = change old := by
  induction children with
  | nil => cases member
  | cons head rest ih =>
      by_cases here : inSlot slot head = true
      · simp only [modify, here, if_true, List.mem_cons] at member
        rcases member with rfl | below
        · exact .inr ⟨head, by simp, here, rfl⟩
        · exact .inl (by simp [below])
      · simp only [modify, here, if_false, List.mem_cons, Bool.false_eq_true] at member
        rcases member with rfl | below
        · exact .inl (by simp)
        · rcases ih below with kept | ⟨old, present, inside, changed⟩
          · exact .inl (by simp [kept])
          · exact .inr ⟨old, by simp [present], inside, changed⟩

theorem insertBehind_eq (mark : String) (inserted : Node) (children : List Node) :
    ∃ left right, children = left ++ right ∧
      insertBehind mark inserted children = left ++ inserted :: right := by
  cases children with
  | nil => exact ⟨[], [], rfl, rfl⟩
  | cons child rest =>
      by_cases marked : child.kind = mark
      · exact ⟨[child], rest, rfl, by simp [insertBehind, marked]⟩
      · exact ⟨[], child :: rest, rfl, by simp [insertBehind, marked]⟩

theorem mem_insertBehind {children : List Node} {child : Node}
    (member : child ∈ insertBehind mark inserted children) :
    child = inserted ∨ child ∈ children := by
  obtain ⟨left, right, rfl, behind⟩ := insertBehind_eq mark inserted children
  rw [behind] at member
  simp only [List.mem_append, List.mem_cons] at member ⊢
  tauto

theorem mem_insertAfterMarked {children : List Node} {child : Node}
    (member : child ∈ insertAfterMarked slot mark inserted children) :
    child = inserted ∨ child ∈ children := by
  induction children with
  | nil => cases member
  | cons head rest ih =>
      rw [insertAfterMarked] at member
      split at member
      · rcases List.mem_cons.mp member with rfl | below
        · exact .inr (by simp)
        · exact (mem_insertBehind below).imp_right fun kept => by simp [kept]
      · rcases List.mem_cons.mp member with rfl | below
        · exact .inr (by simp)
        · exact (ih below).imp_right fun kept => by simp [kept]

theorem mem_insertAfter {children : List Node} {child : Node}
    (member : child ∈ insertAfter slot inserted children) :
    child = inserted ∨ child ∈ children := by
  induction children with
  | nil => cases member
  | cons head rest ih =>
      rw [insertAfter] at member
      split at member
      · simp only [List.mem_cons] at member ⊢
        tauto
      · rcases List.mem_cons.mp member with rfl | below
        · exact .inr (by simp)
        · exact (ih below).imp_right fun kept => by simp [kept]

theorem insertAfterMarked_split (before : ∀ child ∈ left, inSlot slot child = false)
    (present : inSlot slot found = true) :
    insertAfterMarked slot mark inserted (left ++ found :: right) =
      left ++ found :: insertBehind mark inserted right := by
  induction left with
  | nil => simp [insertAfterMarked, present]
  | cons child rest ih =>
      have there := ih fun other member => before other (by simp [member])
      simp [insertAfterMarked, before child (by simp), there]

theorem insertAfter_split (before : ∀ child ∈ left, inSlot slot child = false)
    (present : inSlot slot found = true) :
    insertAfter slot inserted (left ++ found :: right) = left ++ found :: inserted :: right := by
  induction left with
  | nil => simp [insertAfter, present]
  | cons child rest ih =>
      have there := ih fun other member => before other (by simp [member])
      simp [insertAfter, before child (by simp), there]

theorem erase_split (before : ∀ child ∈ left, inSlot slot child = false)
    (present : inSlot slot found = true) :
    erase slot (left ++ found :: right) = left ++ right := by
  induction left with
  | nil => simp [erase, present]
  | cons child rest ih =>
      have there := ih fun other member => before other (by simp [member])
      unfold erase at there ⊢
      simp [before child (by simp), there]

theorem erase_absent (slot : String) {children : List Node}
    (absent : ∀ child ∈ children, inSlot slot child = false) : erase slot children = children := by
  unfold erase
  rw [List.eraseP_of_forall_not]
  simpa using absent

end Children

namespace Tree

@[simp]
theorem label_withChildren (tree : Node) (children : List Node) :
    (tree.withChildren children).label = tree.label := rfl

@[simp]
theorem children_withChildren (tree : Node) (children : List Node) :
    (tree.withChildren children).children = children := rfl

@[simp]
theorem kind_withChildren (tree : Node) (children : List Node) :
    (tree.withChildren children).kind = tree.kind := rfl

@[simp]
theorem slot_withChildren (tree : Node) (children : List Node) :
    (tree.withChildren children).slot = tree.slot := rfl

@[simp]
theorem isLeaf_withChildren (tree : Node) (children : List Node) :
    (tree.withChildren children).isLeaf = tree.isLeaf := rfl

theorem withChildren_children (tree : Node) : tree.withChildren tree.children = tree := by
  cases tree
  rfl

theorem child?_eq_some_iff (tree : Node) (slot : String) (found : Node) :
    tree.child? slot = some found ↔
      ∃ left right, tree.children = left ++ found :: right ∧
        (∀ child ∈ left, Children.inSlot slot child = false) ∧
        Children.inSlot slot found = true := by
  unfold child? Children.inSlot
  rw [List.find?_eq_some_iff_append]
  constructor
  · rintro ⟨present, left, right, same, before⟩
    exact ⟨left, right, same, by simpa using before, present⟩
  · rintro ⟨left, right, same, before, present⟩
    exact ⟨present, left, right, same, by simpa using before⟩

theorem child?_eq_none_iff (tree : Node) (slot : String) :
    tree.child? slot = none ↔ ∀ child ∈ tree.children, Children.inSlot slot child = false := by
  unfold child? Children.inSlot
  simp

theorem mem_of_child? {tree found : Node} {slot : String} (some : tree.child? slot = some found) :
    found ∈ tree.children := List.mem_of_find?_eq_some some

theorem slot_of_child? {tree found : Node} {slot : String} (present : tree.child? slot = some found) :
    found.slot = some slot := by
  obtain ⟨_, _, _, _, inside⟩ := (child?_eq_some_iff tree slot found).mp present
  exact (Children.inSlot_iff slot found).mp inside

theorem hasChild_iff (tree : Node) (slot : String) :
    tree.hasChild slot = true ↔ ∃ child ∈ tree.children, child.slot = some slot := by
  unfold hasChild child?
  simp

theorem hasChild_eq_false_iff (tree : Node) (slot : String) :
    tree.hasChild slot = false ↔ tree.child? slot = none := by
  simp [hasChild]

theorem hasChild_of_child? {tree found : Node} {slot : String}
    (present : tree.child? slot = some found) : tree.hasChild slot = true := by
  simp [hasChild, present]

theorem child?_of_hasChild {tree : Node} {slot : String} (present : tree.hasChild slot = true) :
    ∃ found, tree.child? slot = some found := Option.isSome_iff_exists.mp present

theorem child?_related {related : Node → Node → Prop}
    (slots : ∀ {old new}, related old new → new.slot = old.slot) {old new : Node}
    (pairs : List.Forall₂ related old.children new.children) (slot : String) :
    (old.child? slot = none ∧ new.child? slot = none) ∨
      ∃ first second, old.child? slot = some first ∧ new.child? slot = some second ∧
        related first second := by
  unfold child?
  generalize old.children = olds at pairs ⊢
  generalize new.children = news at pairs ⊢
  induction pairs with
  | nil => exact .inl ⟨rfl, rfl⟩
  | @cons first second rest others pair later ih =>
      by_cases here : first.slot = some slot
      · have there : second.slot = some slot := (slots pair).trans here
        exact .inr ⟨first, second, by simp [here], by simp [there], pair⟩
      · have there : second.slot ≠ some slot := by rwa [slots pair]
        simpa [List.find?_cons, here, there] using ih

theorem hasChild_related {related : Node → Node → Prop}
    (slots : ∀ {old new}, related old new → new.slot = old.slot) {old new : Node}
    (pairs : List.Forall₂ related old.children new.children) (slot : String) :
    new.hasChild slot = old.hasChild slot := by
  rcases child?_related slots pairs slot with ⟨none, empty⟩ | ⟨first, second, old, new, _⟩
  · simp [hasChild, none, empty]
  · simp [hasChild, old, new]

section Related

variable {related : Node → Node → Prop} {slot : String} {olds news : List Node}
  (slots : ∀ {old new}, related old new → new.slot = old.slot)
  (pairs : List.Forall₂ related olds news)

include slots pairs

theorem takeWhile_related :
    List.Forall₂ related (olds.takeWhile fun child => !Children.inSlot slot child)
      (news.takeWhile fun child => !Children.inSlot slot child) := by
  induction pairs with
  | nil => exact .nil
  | cons here later ih =>
      rw [List.takeWhile_cons, List.takeWhile_cons, Children.inSlot_congr slot (slots here)]
      split
      · exact .cons here ih
      · exact .nil

theorem dropWhile_related :
    List.Forall₂ related (olds.dropWhile fun child => !Children.inSlot slot child)
      (news.dropWhile fun child => !Children.inSlot slot child) := by
  induction pairs with
  | nil => exact .nil
  | cons here later ih =>
      rw [List.dropWhile_cons, List.dropWhile_cons, Children.inSlot_congr slot (slots here)]
      split
      · exact ih
      · exact .cons here later

theorem erase_related :
    List.Forall₂ related (Children.erase slot olds) (Children.erase slot news) := by
  unfold Children.erase
  induction pairs with
  | nil => exact .nil
  | cons here later ih =>
      simp only [List.eraseP_cons, Children.inSlot_congr slot (slots here), cond_eq_ite]
      split
      · exact later
      · exact .cons here ih

theorem replace_related {replacement : Node} (self : related replacement replacement) :
    List.Forall₂ related (Children.replace slot replacement olds)
      (Children.replace slot replacement news) := by
  unfold Children.replace
  induction pairs with
  | nil => exact .nil
  | cons here later ih =>
      rw [Children.modify, Children.modify, Children.inSlot_congr slot (slots here)]
      split
      · exact .cons self later
      · exact .cons here ih

theorem insertAfterMarked_related {mark : String} {inserted : Node}
    (self : related inserted inserted)
    (kinds : ∀ {old new}, related old new → new.kind = old.kind) :
    List.Forall₂ related (Children.insertAfterMarked slot mark inserted olds)
      (Children.insertAfterMarked slot mark inserted news) := by
  induction pairs with
  | nil => exact .nil
  | cons here later ih =>
      rw [Children.insertAfterMarked, Children.insertAfterMarked,
        Children.inSlot_congr slot (slots here)]
      split
      · refine .cons here ?_
        cases later with
        | nil => exact .cons self .nil
        | cons first others =>
            rw [Children.insertBehind, Children.insertBehind, kinds first]
            split
            · exact .cons first (.cons self others)
            · exact .cons self (.cons first others)
      · exact .cons here ih

end Related

theorem child?_replaced (label : Label) {left right : List Node} {found replacement : Node}
    {slot : String} (other : found.slot ≠ some slot) (absent : replacement.slot ≠ some slot) :
    (node label (left ++ replacement :: right)).child? slot =
      (node label (left ++ found :: right)).child? slot := by
  unfold child?
  simp [List.find?_append, other, absent]

theorem child?_insertAfter (tree : Node) {anchor slot : String} {inserted : Node}
    (other : inserted.slot ≠ some slot) :
    (tree.withChildren (Children.insertAfter anchor inserted tree.children)).child? slot =
      tree.child? slot := by
  unfold child?
  rw [children_withChildren]
  induction tree.children with
  | nil => rfl
  | cons head rest ih =>
      rw [Children.insertAfter]
      split
      · simp [List.find?_cons, other]
      · rw [List.find?_cons, List.find?_cons, ih]

theorem child?_insertAfterMarked (tree : Node) {anchor mark slot : String} {inserted : Node}
    (other : inserted.slot ≠ some slot) :
    (tree.withChildren (Children.insertAfterMarked anchor mark inserted tree.children)).child? slot =
      tree.child? slot := by
  unfold child?
  rw [children_withChildren]
  induction tree.children with
  | nil => rfl
  | cons head rest ih =>
      rw [Children.insertAfterMarked]
      split
      · obtain ⟨left, right, rfl, behind⟩ := Children.insertBehind_eq mark inserted rest
        rw [behind]
        simp [List.find?_cons, List.find?_append, other]
      · rw [List.find?_cons, List.find?_cons, ih]

theorem self_mem_insertAfterMarked {tree found : Node} {anchor mark : String} (inserted : Node)
    (present : tree.child? anchor = some found) :
    inserted ∈ Children.insertAfterMarked anchor mark inserted tree.children := by
  obtain ⟨left, right, same, before, inside⟩ := (child?_eq_some_iff _ _ _).mp present
  obtain ⟨middle, rest, _, behind⟩ := Children.insertBehind_eq mark inserted right
  rw [same, Children.insertAfterMarked_split before inside, behind]
  simp

theorem self_mem_insertAfter {tree found : Node} {anchor : String} (inserted : Node)
    (present : tree.child? anchor = some found) :
    inserted ∈ Children.insertAfter anchor inserted tree.children := by
  obtain ⟨left, right, same, before, inside⟩ := (child?_eq_some_iff _ _ _).mp present
  rw [same, Children.insertAfter_split before inside]
  simp

end Tree

end ScriptTyping
