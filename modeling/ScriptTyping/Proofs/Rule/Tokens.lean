import ScriptTyping.Proofs.Rule.Inheritance
import ScriptTyping.Proofs.Weaving
import ScriptTyping.Rule.Imports
import ScriptTyping.Rule.LoopHeaders

set_option autoImplicit false

namespace ScriptTyping

open ScriptTyping.Tree

namespace Tree

def Childless (tree : Node) : Prop :=
  tree.isLeaf = true → tree.children = [] ∨ tree.kind = "string"

theorem Childless.inner {tree child : Node} (childless : Childless tree)
    (member : child ∈ tree.children) (other : tree.kind ≠ "string") : tree.isLeaf = false := by
  cases leaf : tree.isLeaf with
  | false => rfl
  | true =>
      rw [(childless leaf).resolve_right other] at member
      cases member

theorem numbers_insertAfter {anchor : String} {inserted : Node} (made : inserted.numbers = [])
    (children : List Node) :
    (Children.insertAfter anchor inserted children).flatMap numbers = children.flatMap numbers := by
  induction children with
  | nil => rfl
  | cons child rest ih =>
      rw [Children.insertAfter]
      split
      · simp [made]
      · rw [List.flatMap_cons, List.flatMap_cons, ih]

theorem numbers_insertAfterMarked {anchor mark : String} {inserted : Node}
    (made : inserted.numbers = []) (children : List Node) :
    (Children.insertAfterMarked anchor mark inserted children).flatMap numbers =
      children.flatMap numbers := by
  induction children with
  | nil => rfl
  | cons child rest ih =>
      rw [Children.insertAfterMarked]
      split
      · obtain ⟨left, right, rfl, behind⟩ := Children.insertBehind_eq mark inserted rest
        rw [behind]
        simp [made]
      · rw [List.flatMap_cons, List.flatMap_cons, ih]

end Tree

namespace Bindings

theorem numbers_statement (pattern : Node) (name : String) :
    (statement pattern name).numbers = pattern.numbers := by
  simp [statement]

theorem numbers_asBlock (body : Node) : (asBlock body).numbers = body.numbers := by
  unfold asBlock
  split
  · rfl
  · simp [returning]

theorem numbers_setOff (following : List Node) :
    (setOff following).flatMap numbers = following.flatMap numbers := by
  cases following with
  | nil => rfl
  | cons first rest =>
      obtain ⟨label, children⟩ := first
      rw [setOff]
      split
      · rw [List.flatMap_cons, List.flatMap_cons]
        congr 1
        exact @numbers_relabel label { label with lead := " " } rfl rfl children
      · rfl

theorem weaves_prepended {block extended : Node} {statements : List Node}
    (inner : block.isLeaf = false) (prepended : prepend? block statements = some extended) :
    Weaves block.numbers (statements.flatMap numbers) extended.numbers := by
  obtain ⟨left, brace, rest, split, _, _, rfl⟩ := prepend?_cases prepended
  have moved : (statements.map (Tree.withTrivia (indentBefore rest))).flatMap numbers =
      statements.flatMap numbers := by
    simp [List.flatMap_map]
  rw [numbers_withChildren inner, numbers_inner inner, split]
  simp only [List.flatMap_append, List.flatMap_cons, moved, numbers_setOff, ← List.append_assoc]
  have all := (Weaves.all_moved (statements.flatMap numbers)).between
    (left.flatMap numbers ++ brace.numbers) (rest.flatMap numbers)
  rwa [List.append_nil] at all

end Bindings

namespace Functions

variable {tree : Node}

theorem inner_of_pattern {child pattern : Node} (childless : Childless child)
    (kind : child.kind ∈ parameterKinds) (present : child.child? "pattern" = some pattern) :
    child.isLeaf = false := by
  refine childless.inner (mem_of_child? present) fun string => ?_
  rw [string] at kind
  exact absurd kind (by decide)

theorem numbers_annotateParameter {child : Node} (inner : child.isLeaf = false) :
    (annotateParameter child).numbers = child.numbers := by
  rw [annotateParameter, numbers_withChildren inner, numbers_inner inner]
  exact numbers_insertAfterMarked (numbers_hint _ _) _

theorem weaves_lowered {child pattern : Node} (inner : child.isLeaf = false)
    (present : child.child? "pattern" = some pattern) (name : String) :
    Weaves (annotateParameter (renamed name child)).numbers pattern.numbers child.numbers := by
  obtain ⟨left, middle, rest, split, _, named⟩ := typed_split present
  rw [named name, numbers_withChildren inner, numbers_inner inner, split]
  simp only [List.flatMap_append, List.flatMap_cons, numbers_token, numbers_hint, List.nil_append]
  have all := (Weaves.all_moved pattern.numbers).between (left.flatMap numbers)
    (middle.flatMap numbers ++ rest.flatMap numbers)
  rw [List.append_nil] at all
  simpa using all

theorem weaves_annotates {canLower : Bool} {before after bindings : List Node}
    (annotates : Annotates canLower before after bindings)
    (childless : ∀ child ∈ before, Childless child) :
    Weaves (after.flatMap numbers) (bindings.flatMap numbers) (before.flatMap numbers) := by
  induction annotates with
  | nil => exact .nil
  | @same child rest after bindings settled later ih =>
      have below := ih fun other member => childless other (by simp [member])
      exact (Weaves.all_kept child.numbers).append below
  | @typed child rest after bindings change later ih =>
      have below := ih fun other member => childless other (by simp [member])
      obtain ⟨kind, pattern, present, _⟩ := changeOf_annotate change
      have inner := inner_of_pattern (childless child (by simp)) kind present
      rw [List.flatMap_cons, List.flatMap_cons, numbers_annotateParameter inner]
      exact (Weaves.all_kept child.numbers).append below
  | @lowered child pattern rest after bindings number change later ih =>
      have below := ih fun other member => childless other (by simp [member])
      obtain ⟨kind, present, _⟩ := changeOf_lower change
      have inner := inner_of_pattern (childless child (by simp)) kind present
      rw [List.flatMap_cons, List.flatMap_cons, List.flatMap_cons, Bindings.numbers_statement]
      exact (weaves_lowered inner present _).append below

theorem mem_bindings {canLower : Bool} {before after bindings : List Node}
    (annotates : Annotates canLower before after bindings) {number : Nat}
    (member : number ∈ bindings.flatMap numbers) :
    ∃ child ∈ before, ∃ pattern, changeOf canLower child = .lower pattern ∧
      number ∈ pattern.numbers ∧ ∀ other ∈ pattern.numbers, other ∈ bindings.flatMap numbers := by
  induction annotates with
  | nil => cases member
  | same settled later ih | typed change later ih =>
      obtain ⟨child, below, pattern, rest⟩ := ih member
      exact ⟨child, by simp [below], pattern, rest⟩
  | @lowered child pattern rest after bindings name change later ih =>
      rw [List.flatMap_cons, Bindings.numbers_statement, List.mem_append] at member
      rw [List.flatMap_cons, Bindings.numbers_statement]
      rcases member with here | later
      · exact ⟨child, by simp, pattern, change, here, fun other member => by simp [member]⟩
      · obtain ⟨child, below, pattern, change, inside, all⟩ := ih later
        exact ⟨child, by simp [below], pattern, change, inside, fun other member =>
          List.mem_append_right _ (all other member)⟩

theorem numbers_started {started : Node} (inner : tree.isLeaf = false)
    (start : withParameters? tree = some started) : started.numbers = tree.numbers := by
  rcases withParameters?_cases start with ⟨_, rfl⟩ | ⟨_, bare, left, right, _, split, rfl⟩
  · rfl
  · rw [numbers_withChildren inner, numbers_inner inner, split]
    simp [parenthesized]

theorem isLeaf_bound {bindings : List Node} {bound : Node}
    (binds : withBindings? bindings tree = some bound) : bound.isLeaf = tree.isLeaf := by
  rcases withBindings?_cases binds with ⟨_, rfl⟩ | ⟨_, _, _, _, _, _, _, _, _, rfl⟩ <;> rfl

theorem weaves_bound {bindings : List Node} {bound : Node} (inner : tree.isLeaf = false)
    (childless : ∀ body, tree.child? "body" = some body → Childless body)
    (binds : withBindings? bindings tree = some bound) :
    Weaves tree.numbers (bindings.flatMap numbers) bound.numbers := by
  rcases withBindings?_cases binds with
    ⟨rfl, rfl⟩ | ⟨_, body, block, left, right, shown, split, _, prepended, rfl⟩
  · exact .all_kept _
  · have open' : (Bindings.asBlock body).isLeaf = false := by
      unfold Bindings.asBlock
      split
      next own =>
        have kind : body.kind = Bindings.blockKind := by simpa using own
        obtain ⟨_, brace, _, children, _⟩ := Bindings.prepend?_cases prepended
        rw [Bindings.asBlock, if_pos own] at children
        have member : brace ∈ body.children := by simp [children]
        exact (childless body shown).inner member (by rw [kind]; decide)
      next => rfl
    have longer := Bindings.weaves_prepended open' prepended
    rw [Bindings.numbers_asBlock] at longer
    rw [numbers_withChildren inner, numbers_inner inner, split]
    simpa using longer.between (left.flatMap numbers) (right.flatMap numbers)

theorem weaves_signed {started list bound result : Node} {children bindings : List Node}
    {canLower : Bool} (inner : tree.isLeaf = false)
    (childless : ∀ child ∈ tree.children, Childless child)
    (start : withParameters? tree = some started)
    (present : started.child? "parameters" = some list)
    (listChildless : list.isLeaf = true → children = list.children ∧ bindings = [])
    (parameters : ∀ child ∈ list.children, Childless child)
    (annotates : Annotates canLower list.children children bindings)
    (binds : withBindings? bindings (listed started list children) = some bound)
    (results : Resulted bound result) :
    ∃ kept, Weaves kept (bindings.flatMap numbers) tree.numbers ∧
      Weaves kept (bindings.flatMap numbers) result.numbers := by
  obtain ⟨left, right, split, _, equal⟩ := listed_split present children
  have started' : started.isLeaf = false := by
    rwa [Tree.isLeaf, label_started start]
  have shorter : Weaves (list.withChildren children).numbers (bindings.flatMap numbers)
      list.numbers := by
    cases leaf : list.isLeaf with
    | true =>
        obtain ⟨rfl, rfl⟩ := listChildless leaf
        rw [withChildren_children]
        exact .all_kept _
    | false =>
        rw [numbers_withChildren leaf, numbers_inner leaf]
        exact weaves_annotates annotates parameters
  have before : Weaves (listed started list children).numbers (bindings.flatMap numbers)
      tree.numbers := by
    rw [← numbers_started inner start, equal, numbers_withChildren started', numbers_inner started',
      split]
    simpa using shorter.between (left.flatMap numbers) (right.flatMap numbers)
  have after := @weaves_bound (listed started list children) _ _ started' (fun body shown => by
    rw [child?_listed present children (by decide),
      child?_started_other start (by decide) (by decide)] at shown
    exact childless body (mem_of_child? shown)) binds
  refine ⟨_, before, ?_⟩
  cases results with
  | kept | barred => exact after
  | added =>
      have bound' : bound.isLeaf = false := (isLeaf_bound binds).trans started'
      rw [numbers_withChildren bound', numbers_insertAfter (numbers_hint _ _), ← numbers_inner bound']
      exact after

end Functions

namespace Tree

variable {p : Nat → Bool}

theorem filter_related {olds news : List Node}
    (pairs : List.Forall₂ (fun old new => new.numbers.filter p = old.numbers.filter p) olds news) :
    (news.flatMap numbers).filter p = (olds.flatMap numbers).filter p := by
  induction pairs with
  | nil => rfl
  | cons here later ih =>
      rw [List.flatMap_cons, List.flatMap_cons, List.filter_append, List.filter_append, here, ih]

theorem filter_withChildren (tree : Node) {children : List Node}
    (same : (children.flatMap numbers).filter p = (tree.children.flatMap numbers).filter p) :
    (tree.withChildren children).numbers.filter p = tree.numbers.filter p := by
  cases leaf : tree.isLeaf with
  | true => rw [numbers_leaf leaf, @numbers_leaf (tree.withChildren children) leaf]; rfl
  | false => rw [numbers_withChildren leaf, numbers_inner leaf, same]

end Tree

namespace LoopHeaders

inductive Removes (loop : Node) : Node → Prop where
  | hint {lost : Node} (declares : declares loop = true)
      (member : lost ∈ header loop.children) (kind : isTypeHint lost = true) :
      Removes loop lost
  | declared {declaration declarator lost : Node} (declares : declares loop = true)
      (member : declaration ∈ header loop.children) (kind : isDeclaration declaration = true)
      (below : declarator ∈ declaration.children) (declared : isDeclarator declarator = true)
      (present : declarator.child? "type" = some lost) : Removes loop lost

variable {p : Nat → Bool}

theorem Removes.mem_subtrees {loop lost : Node} (removes : Removes loop lost) :
    lost ∈ loop.subtrees := by
  cases removes with
  | hint _ member _ => exact child_mem_subtrees ((List.takeWhile_sublist _).subset member)
  | declared _ member _ below _ present =>
      have inner := mem_subtrees_of_child below (child_mem_subtrees (mem_of_child? present))
      exact mem_subtrees_of_child ((List.takeWhile_sublist _).subset member) inner

theorem filter_stripDeclarator {declarator : Node}
    (spared : isDeclarator declarator = true → ∀ annotation,
      declarator.child? "type" = some annotation → ∀ number ∈ annotation.numbers, p number = false) :
    (stripDeclarator declarator).numbers.filter p = declarator.numbers.filter p := by
  unfold stripDeclarator
  split
  next kind =>
    refine filter_withChildren declarator ?_
    cases present : declarator.child? "type" with
    | none => rw [Children.erase_absent "type" ((child?_eq_none_iff _ _).mp present)]
    | some annotation =>
        obtain ⟨left, right, split, before, inside⟩ := (child?_eq_some_iff _ _ _).mp present
        have empty : annotation.numbers.filter p = [] :=
          List.filter_eq_nil_iff.mpr fun number member => by
            simp [spared kind annotation present number member]
        rw [split, Children.erase_split before inside]
        simp [empty]
  next => rfl

theorem filter_strip {child : Node}
    (hint : isTypeHint child = true → ∀ number ∈ child.numbers, p number = false)
    (declared : isDeclaration child = true → ∀ declarator ∈ child.children,
      isDeclarator declarator = true → ∀ annotation, declarator.child? "type" = some annotation →
        ∀ number ∈ annotation.numbers, p number = false) :
    ((strip child).toList.flatMap numbers).filter p = child.numbers.filter p := by
  unfold strip
  split
  next kind =>
    have empty : child.numbers.filter p = [] :=
      List.filter_eq_nil_iff.mpr fun number member => by simp [hint kind number member]
    simp [empty]
  next =>
    split
    next kind =>
      rw [Option.toList_some, List.flatMap_singleton]
      refine filter_withChildren child (filter_related ?_)
      rw [List.forall₂_map_right_iff, List.forall₂_same]
      intro declarator member
      exact filter_stripDeclarator fun kind' => declared kind declarator member kind'
    next => simp

theorem filter_sanitize (loop : Node) (declares : declares loop = true)
    (spared : ∀ annotation, Removes loop annotation → ∀ number ∈ annotation.numbers,
      p number = false) : (sanitize loop).numbers.filter p = loop.numbers.filter p := by
  have stripped (children : List Node) (part : ∀ child ∈ children, child ∈ header loop.children) :
      ((children.filterMap strip).flatMap numbers).filter p =
        (children.flatMap numbers).filter p := by
    induction children with
    | nil => rfl
    | cons child rest ih =>
        have here := part child (by simp)
        have first := @filter_strip p child
          (fun kind => spared child (.hint declares here kind))
          (fun kind declarator below declared annotation present =>
            spared annotation (.declared declares here kind below declared present))
        have later := ih fun other member => part other (by simp [member])
        rw [List.flatMap_cons, List.filter_append, ← first, ← later]
        cases kept : strip child with
        | none => simp [kept]
        | some other => simp [kept]
  refine filter_withChildren loop ?_
  rw [List.flatMap_append, List.filter_append, stripped _ fun child member => member,
    ← List.filter_append, ← List.flatMap_append, header, afterHeader,
    List.takeWhile_append_dropWhile]

end LoopHeaders

namespace Imports

theorem filter_shortened {p : Nat → Bool} {tree source : Node}
    (present : tree.child? "source" = some source)
    (spared : source.isLeaf = false → ∀ number ∈ source.numbers, p number = false)
    (lead : String) (quote : Char) (specifier : String) :
    (tree.withChildren (Children.replace "source"
      (source.withChildren (quotedTokens lead quote specifier)) tree.children)).numbers.filter p =
        tree.numbers.filter p := by
  obtain ⟨left, right, split, before, inside⟩ := (child?_eq_some_iff _ _ _).mp present
  have same : (source.withChildren (quotedTokens lead quote specifier)).numbers.filter p =
      source.numbers.filter p := by
    cases leaf : source.isLeaf with
    | true =>
        rw [numbers_leaf leaf, @numbers_leaf (source.withChildren _) leaf]
        rfl
    | false =>
        have empty : source.numbers.filter p = [] :=
          List.filter_eq_nil_iff.mpr fun number member => by simp [spared leaf number member]
        rw [numbers_withChildren leaf, empty]
        simp [quotedTokens]
  refine filter_withChildren tree ?_
  rw [split, Children.replace, Children.modify_split _ before inside]
  simp [same]

end Imports

end ScriptTyping
