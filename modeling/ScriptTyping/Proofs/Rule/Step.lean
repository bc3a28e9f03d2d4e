import ScriptTyping.Proofs.Rule.Converts
import ScriptTyping.Proofs.Rule.Provenance

set_option autoImplicit false

namespace ScriptTyping

open ScriptTyping.Tree

namespace Functions

variable {old tree started list : Node}

theorem lowers_listed (inherits : Inherits old tree) (body : old.hasChild "body" = true)
    (present : tree.child? "parameters" = some list) {child pattern : Node}
    (member : child ∈ list.children) (kind : child.kind ∈ parameterKinds)
    (shown : child.child? "pattern" = some pattern) (untyped : child.hasChild "type" = false)
    (structural : pattern.kind ∈ structuralKinds) :
    ∃ found, Lowers old found ∧ Relocated found pattern := by
  obtain ⟨before, given, touched⟩ := inherits.child? present
  obtain ⟨parameter, below, pair⟩ :=
    touched.parameter_of_mem member (by simpa [isParameter] using kind)
  rcases child?_related SameButLead.slot pair.children "pattern" with
    ⟨_, none⟩ | ⟨first, second, found, here, same⟩
  · simp [none] at shown
  · rw [shown] at here
    cases here
    have typeless : parameter.hasChild "type" = false := by
      rw [← hasChild_related SameButLead.slot pair.children, untyped]
    rw [pair.kind] at kind
    rw [same.kind] at structural
    exact ⟨first, .listed body given below kind found typeless structural, same.relocated⟩

theorem lowers_bare (inherits : Inherits old tree) (body : old.hasChild "body" = true)
    (unlisted : tree.hasChild "parameters" = false) {bare child pattern : Node}
    (single : tree.child? "parameter" = some bare)
    (member : child ∈ (parenthesized bare).children) (kind : child.kind ∈ parameterKinds)
    (shown : child.child? "pattern" = some pattern)
    (structural : pattern.kind ∈ structuralKinds) :
    ∃ found, Lowers old found ∧ Relocated found pattern := by
  rw [parenthesized_parameter member kind] at shown
  have relocated : (bare.withTrivia "").withSlot (some "pattern") = pattern := by
    simpa [child?, branch, withSlot, Tree.slot] using shown
  subst relocated
  obtain ⟨before, given, touched⟩ := inherits.child? single
  have cleared := (SameButLead.refl bare).withTrivia (by decide : "" ∈ movedLeads)
  have kinds : bare.kind ∈ structuralKinds := by
    rw [← cleared.kind]
    exact structural
  have same := touched.same (by simpa [isParameter] using not_parameter_of_structural kinds)
  rw [inherits.hasChild] at unlisted
  rw [same.kind] at kinds
  exact ⟨before, .bare body unlisted given kinds, _, _, same.withTrivia (by decide), rfl⟩

theorem lowers_of_change (inherits : Inherits old tree)
    (start : withParameters? tree = some started)
    (present : started.child? "parameters" = some list) {child pattern : Node}
    (member : child ∈ list.children)
    (change : changeOf (started.hasChild "body") child = .lower pattern) :
    ∃ found, Lowers old found ∧ Relocated found pattern := by
  obtain ⟨kind, shown, untyped, structural, body⟩ := changeOf_lower change
  rw [Tree.hasChild, child?_started_other start (by decide) (by decide), ← Tree.hasChild,
    inherits.hasChild] at body
  rcases withParameters?_cases start with ⟨_, rfl⟩ | ⟨unlisted, bare, left, right, single, same, rfl⟩
  · exact lowers_listed inherits body present member kind shown untyped structural
  · rw [child?_parenthesized unlisted same] at present
    cases present
    exact lowers_bare inherits body unlisted single member kind shown structural

end Functions

namespace Rule

variable {whole old tree : Node} {link : Node → Node → Prop} {parent other : Label}

theorem not_added_of_function {token : Label} (kind : parent.kind ∈ Functions.kinds) :
    ¬ Added whole parent token := by
  intro added
  cases added with
  | parameter here =>
      simp only [Functions.parameterKinds, List.mem_cons, List.not_mem_nil, or_false] at here
      rcases here with here | here <;> rw [here] at kind <;> exact absurd kind (by decide)
  | _ here => rw [here] at kind; exact absurd kind (by decide)

theorem not_added_of_structural {token : Label} (parameter : parent.kind ∈ Functions.parameterKinds)
    (structural : token.kind ∈ Functions.structuralKinds) : ¬ Added whole parent token := by
  intro added
  cases added with
  | parameter here place identifier =>
      rw [identifier] at structural
      exact absurd structural (by decide)
  | _ here => rw [here] at parameter; exact absurd parameter (by decide)

theorem mayRelead_made (regular : whole.Regular) {first : Label} (made : first.origin = none) :
    MayRelead whole first := by
  intro token member same
  obtain ⟨part, below, rfl, _⟩ := exists_leaf_of_mem_leaves member
  have numbered := regular.numbered part below
  rw [same, made] at numbered
  cases numbered

theorem mayRelead_of_releads (regular : whole.Regular) (member : old ∈ whole.subtrees)
    (kind : old.kind ∈ Functions.kinds) {part : Node} (below : part ∈ old.subtrees)
    {token first : Label} (present : token ∈ part.leaves.head?)
    (releads : Functions.Releads old token) (same : token.origin = first.origin) :
    MayRelead whole first := by
  intro twin known equal
  have within := (regular.leaves_sublist (mem_subtrees_trans below member)).subset
    (List.mem_of_mem_head? present)
  rw [regular.leaf_eq known within (equal.trans same.symm)]
  exact ⟨old, member, kind, releads⟩

theorem mayRelead_relocated {new : Node} (relocated : Relocated old new)
    (may : ∀ first ∈ old.leaves.head?, MayRelead whole first) :
    ∀ first ∈ new.leaves.head?, MayRelead whole first := by
  intro first present token known same
  obtain ⟨earlier, here, equal⟩ := relocated.first first present
  exact may earlier here token known (same.trans equal.symm)

theorem mayRelead_lowered (regular : whole.Regular) (member : old ∈ whole.subtrees)
    (kind : old.kind ∈ Functions.kinds) {found pattern : Node}
    (lowers : Functions.Lowers old found) (relocated : Relocated found pattern) :
    ∀ first ∈ pattern.leaves.head?, MayRelead whole first := by
  intro first present
  obtain ⟨token, here, same⟩ := relocated.first first present
  exact mayRelead_of_releads regular member kind lowers.mem_subtrees here
    (.lowered lowers here) same

theorem mayRelead_touched (regular : whole.Regular) (member : old ∈ whole.subtrees)
    (kind : old.kind ∈ Functions.kinds) {found child : Node} (below : found ∈ old.children)
    (touched : Touched found child)
    (releads : ∀ token ∈ found.leaves.head?, Functions.Releads old token) :
    ∀ first ∈ child.leaves.head?, MayRelead whole first := by
  intro first present
  rcases touched.first first present with made | ⟨token, here, same⟩
  · exact mayRelead_made regular made
  · exact mayRelead_of_releads regular member kind (child_mem_subtrees below) here
      (releads token here) same

theorem Traced.inner_of_mem {child : Node} (traced : Traced link whole parent tree)
    (plain : tree.kind ≠ "string") (member : child ∈ tree.children) : tree.isLeaf = false := by
  cases leaf : tree.isLeaf with
  | false => rfl
  | true =>
      rcases traced.childless leaf with empty | string
      · simp [empty] at member
      · exact absurd string.1 plain

theorem sound_parenthesized {bare : Node} (sound : Sound whole tree.label bare)
    (kind : tree.kind ∈ Functions.kinds)
    (may : ∀ first ∈ bare.leaves.head?, MayRelead whole first) :
    Sound whole parent (Functions.parenthesized bare) := by
  refine .of_children rfl (show "formal_parameters" ∉ siteKinds by decide) fun child member => ?_
  rcases (by simpa [Functions.parenthesized, branch] using member) with rfl | rfl | rfl
  · exact .leaf (.parenthesis rfl rfl (.inl rfl))
  · refine .of_children rfl (show "required_parameter" ∉ siteKinds by decide) fun child member => ?_
    rcases (by simpa using member) with rfl
    exact (sound.withTrivia (by decide) may).moved (fun _ => not_added_of_function kind) _
  · exact .leaf (.parenthesis rfl rfl (.inr rfl))

theorem withTrivia_statement (lead : String) (pattern : Node) (name : String) :
    (Bindings.statement pattern name).withTrivia lead =
      .branch "lexical_declaration"
        [.leaf "const" "const" lead (some "kind"),
         .branch "variable_declarator"
           [(pattern.withSlot (some "name")).withTrivia " ", .mark "=" " ",
            .leaf "identifier" name " " (some "value")] none,
         .mark ";" ""] none := rfl

theorem sound_statement {pattern : Node} (sound : Sound whole parent pattern)
    (own : pattern.isLeaf = true → ¬ Added whole parent pattern.label)
    (may : ∀ first ∈ pattern.leaves.head?, MayRelead whole first) (number : Nat) (lead : String) :
    Sound whole other
      ((Bindings.statement pattern (FreshNames.name number)).withTrivia lead) := by
  rw [withTrivia_statement]
  refine .of_children rfl (show "lexical_declaration" ∉ siteKinds by decide) fun child member => ?_
  rcases (by simpa [branch] using member) with rfl | rfl | rfl
  · exact .leaf (.binding rfl rfl (.inl rfl))
  · refine .of_children rfl (show "variable_declarator" ∉ siteKinds by decide)
      fun child member => ?_
    rcases (by simpa using member) with rfl | rfl | rfl
    · have relocated : Relocated pattern (pattern.withSlot (some "name")) :=
        ⟨pattern, _, .refl pattern, rfl⟩
      exact (sound.moved own _).withTrivia (by decide) (mayRelead_relocated relocated may)
    · exact .leaf (.declarator rfl rfl (.inl rfl))
    · exact .leaf (.declarator rfl rfl (.inr ⟨number, rfl⟩))
  · exact .leaf (.binding rfl rfl (.inr rfl))

theorem site_of_parameter {kind : String} (parameter : kind ∈ Functions.parameterKinds) :
    kind ∉ siteKinds ∧ kind ≠ "string" := by
  simp only [Functions.parameterKinds, List.mem_cons, List.not_mem_nil, or_false] at parameter
  rcases parameter with rfl | rfl <;> decide

theorem sound_annotateParameter {child pattern : Node} (sound : Sound whole parent child)
    (kind : child.kind ∈ Functions.parameterKinds)
    (shown : child.child? "pattern" = some pattern) :
    Sound whole parent (Functions.annotateParameter child) := by
  obtain ⟨plain, inner⟩ := site_of_parameter kind
  have branch := sound.1.inner_of_mem inner (mem_of_child? shown)
  refine .of_children branch plain fun part member => ?_
  rcases Children.mem_insertAfterMarked member with rfl | kept
  · exact sound_hint _ _
  · exact sound_of_below sound.2 part kept

theorem sound_renamed {child pattern : Node} (sound : Sound whole parent child)
    (kind : child.kind ∈ Functions.parameterKinds)
    (shown : child.child? "pattern" = some pattern) (number : Nat) :
    Sound whole parent (Functions.renamed (FreshNames.name number) child) := by
  obtain ⟨plain, inner⟩ := site_of_parameter kind
  have branch := sound.1.inner_of_mem inner (mem_of_child? shown)
  refine .of_children branch plain fun part member => ?_
  rcases Children.mem_modify member with kept | ⟨_, _, _, rfl⟩
  · exact sound_of_below sound.2 part kept
  · exact .leaf (.parameter kind rfl rfl number rfl)

theorem child?_renamed {child pattern : Node} (shown : child.child? "pattern" = some pattern)
    (name : String) :
    (Functions.renamed name child).child? "pattern" =
      some (.leaf "identifier" name pattern.trivia (some "pattern")) := by
  obtain ⟨left, right, same, before, inside⟩ := (child?_eq_some_iff _ _ _).mp shown
  refine (child?_eq_some_iff _ _ _).mpr ⟨left, right, ?_, before, rfl⟩
  rw [Functions.renamed, same, Children.modify_split _ before inside]
  rfl

theorem sound_annotates {canLower : Bool} {before after bindings : List Node}
    (annotates : Functions.Annotates canLower before after bindings)
    (sound : ∀ child ∈ before, Sound whole parent child)
    (may : ∀ child ∈ before, ∀ pattern, Functions.changeOf canLower child = .lower pattern →
      ∀ first ∈ pattern.leaves.head?, MayRelead whole first) :
    (∀ child ∈ after, Sound whole parent child) ∧
      ∀ binding ∈ bindings, ∀ lead other, Sound whole other (binding.withTrivia lead) := by
  induction annotates with
  | nil => simp
  | same settled later ih =>
      have rest := ih (fun child member => sound child (by simp [member]))
        (fun child member => may child (by simp [member]))
      exact ⟨by simpa using ⟨sound _ (by simp), rest.1⟩, rest.2⟩
  | typed change later ih =>
      have rest := ih (fun child member => sound child (by simp [member]))
        (fun child member => may child (by simp [member]))
      obtain ⟨kind, pattern, shown, _⟩ := Functions.changeOf_annotate change
      have here := sound_annotateParameter (sound _ (by simp)) kind shown
      exact ⟨by simpa using ⟨here, rest.1⟩, rest.2⟩
  | @lowered child pattern _ _ _ number change later ih =>
      have rest := ih (fun child member => sound child (by simp [member]))
        (fun child member => may child (by simp [member]))
      obtain ⟨kind, shown, _, structural, _⟩ := Functions.changeOf_lower change
      have first := sound child (by simp)
      have renamed := sound_renamed first kind shown number
      have here := sound_annotateParameter renamed kind (child?_renamed shown _)
      refine ⟨by simpa using ⟨here, rest.1⟩, ?_⟩
      have moves := sound_of_below first.2 pattern (mem_of_child? shown)
      intro binding member lead other
      rcases List.mem_cons.mp member with rfl | below
      · exact sound_statement moves (fun _ => not_added_of_structural kind structural)
          (may child (by simp) pattern change) number lead
      · exact rest.2 binding below lead other

theorem touched_annotates {canLower : Bool} {olds before after bindings : List Node}
    (annotates : Functions.Annotates canLower before after bindings)
    (sound : ∀ child ∈ before, Sound whole parent child)
    (pairs : List.Forall₂ SameButLead olds before) : List.Forall₂ Touched olds after := by
  induction annotates generalizing olds with
  | nil =>
      cases pairs
      exact .nil
  | same settled later ih =>
      cases pairs with
      | cons here others =>
          exact .cons (.inl here) (ih (fun child member => sound child (by simp [member])) others)
  | @typed child _ _ _ change later ih =>
      cases pairs with
      | cons here others =>
          have rest := ih (fun child member => sound child (by simp [member])) others
          obtain ⟨kind, pattern, shown, _⟩ := Functions.changeOf_annotate change
          have inner := (sound child (by simp)).1.inner_of_mem (site_of_parameter kind).2
            (mem_of_child? shown)
          obtain ⟨left, middle, right, split, typed, _⟩ := Functions.typed_split shown
          rw [typed]
          refine .cons (.inr (.of_typed here ?_ inner split (.inl rfl))) rest
          simpa [isParameter] using kind
  | @lowered child pattern _ _ _ number change later ih =>
      cases pairs with
      | cons here others =>
          have rest := ih (fun child member => sound child (by simp [member])) others
          obtain ⟨kind, shown, _, structural, _⟩ := Functions.changeOf_lower change
          have inner := (sound child (by simp)).1.inner_of_mem (site_of_parameter kind).2
            (mem_of_child? shown)
          obtain ⟨left, middle, right, split, _, named⟩ := Functions.typed_split shown
          have plain := Functions.not_parameter_of_structural structural
          rw [named]
          refine .cons (.inr (.of_typed here ?_ inner split (.inr ⟨?_, ?_, ?_⟩))) rest
          · simpa [isParameter] using kind
          · simpa [isParameter] using plain
          · simp [isParameter, Functions.parameterKinds, Tree.leaf, Tree.kind]
          · exact ⟨_, leaves_token _ _ _ _, rfl⟩

theorem sound_returning {body : Node} (sound : Sound whole tree.label body)
    (kind : tree.kind ∈ Functions.kinds)
    (may : ∀ first ∈ body.leaves.head?, MayRelead whole first) :
    Sound whole parent (Bindings.returning body) := by
  refine .of_children rfl (show "statement_block" ∉ siteKinds by decide) fun child member => ?_
  rcases (by simpa [Bindings.returning, branch] using member) with rfl | rfl | rfl
  · exact .leaf (.block rfl rfl (.inl rfl))
  · refine .of_children rfl (show "return_statement" ∉ siteKinds by decide) fun child member => ?_
    rcases (by simpa using member) with rfl | rfl | rfl
    · exact .leaf (.returning rfl rfl (.inl rfl))
    · have relocated : Relocated body (body.withSlot none) := ⟨body, _, .refl body, rfl⟩
      exact (sound.moved (fun _ => not_added_of_function kind) _).withTrivia (by decide)
        (mayRelead_relocated relocated may)
    · exact .leaf (.returning rfl rfl (.inr rfl))
  · exact .leaf (.block rfl rfl (.inr rfl))

theorem sound_setOff {close : Node} (sound : Sound whole parent close) (closing : close.kind = "\x7d")
    (may : close.isLeaf = true → MayRelead whole close.label) (lead : String) :
    Sound whole parent (.node { close.label with lead } close.children) := by
  obtain ⟨label, children⟩ := close
  refine ⟨⟨sound.1.childless, fun _ site => ?_, fun leaf => ?_⟩, ?_⟩
  · change label.kind ∈ siteKinds at site
    rw [show label.kind = "\x7d" from closing] at site
    exact absurd site (by decide)
  · rcases sound.1.token leaf with ⟨twin, member, same, _⟩ | ⟨made, added⟩
    · have released := may leaf twin member same.origin.symm
      exact .inl ⟨twin, member, same.trans ⟨_, lead, rfl⟩, .inr released⟩
    · exact .inr ⟨made, added.congr rfl rfl ⟨lead, rfl⟩⟩
  · exact sound.2.relabel fun child traced => traced.reparent rfl rfl

theorem sound_prepend {block extended : Node} {statements : List Node}
    (sound : Sound whole parent block) (kind : block.kind = Bindings.blockKind)
    (each : ∀ statement ∈ statements, ∀ lead other, Sound whole other (statement.withTrivia lead))
    (off : ∀ left brace close rest, block.children = left ++ brace :: close :: rest →
      (∀ child ∈ left, child.kind ≠ "\x7b") → brace.kind = "\x7b" → close.kind = "\x7d" →
      close.label.lead = "" → close.isLeaf = true → MayRelead whole close.label)
    (prepended : Bindings.prepend? block statements = some extended) :
    Sound whole parent extended := by
  obtain ⟨left, brace, rest, split, opening, before, rfl⟩ := Bindings.prepend?_cases prepended
  have below := sound_of_below sound.2
  have inner := sound.1.inner_of_mem (by rw [kind]; decide)
    (show brace ∈ block.children by simp [split])
  have other : block.kind ∉ siteKinds := by
    rw [kind]
    decide
  refine .of_children inner other fun child member => ?_
  rcases (by simpa using member : child ∈ left ∨ child = brace ∨
    (∃ statement ∈ statements, statement.withTrivia (Bindings.indentBefore rest) = child) ∨
      child ∈ Bindings.setOff rest) with early | rfl | ⟨statement, listed, rfl⟩ | late
  · exact below child (by simp [split, early])
  · exact below child (by simp [split])
  · exact each statement listed _ _
  · cases rest with
    | nil => cases late
    | cons close others =>
        have known := below close (by simp [split])
        rw [Bindings.setOff] at late
        split at late
        next empty =>
          simp only [Bool.and_eq_true, beq_iff_eq, String.isEmpty_iff] at empty
          rcases List.mem_cons.mp late with rfl | last
          · exact sound_setOff known empty.1
              (off left brace close others split before opening empty.1 empty.2) _
          · exact below child (by simp [split, last])
        next => exact below child (by simp [split, late])

theorem mayRelead_setOff (regular : whole.Regular) (member : old ∈ whole.subtrees)
    (kind : old.kind ∈ Functions.kinds) {found body pattern brace close : Node}
    {left rest : List Node} (lowers : Functions.Lowers old pattern)
    (present : old.child? "body" = some found) (same : SameButLead found body)
    (block : body.kind = Bindings.blockKind)
    (split : body.children = left ++ brace :: close :: rest)
    (before : ∀ child ∈ left, child.kind ≠ "\x7b") (opening : brace.kind = "\x7b")
    (closing : close.kind = "\x7d") (lead : close.label.lead = "") (leaf : close.isLeaf = true)
    (sound : Sound whole parent close) : MayRelead whole close.label := by
  -- A brace of the function's own block that is set off had no lead when it was read, or has lost
  -- it to a move.
  rcases sound.1.token leaf with ⟨token, known, moved, kept | released⟩ | ⟨made, _⟩
  · have pairs := same.children
    rw [split] at pairs
    obtain ⟨left', brace', others, split', earlier, first, later⟩ := pairs.split_right
    cases later with
    | @cons close' _ rest' _ second last =>
        have below : close' ∈ found.children := by simp [split']
        have within := mem_subtrees_of_child (mem_of_child? present) (child_mem_subtrees below)
        have token' : close'.isLeaf = true := second.isLeaf.symm.trans leaf
        have own : close'.label ∈ close'.leaves.head? := by
          obtain ⟨label, children⟩ := close'
          simp [leaves_leaf label children token']
        have listed := (regular.leaves_sublist (mem_subtrees_trans within member)).subset
          (List.mem_of_mem_head? own)
        have equal : token = close'.label :=
          regular.leaf_eq known listed (moved.origin.symm.trans second.origin)
        refine mayRelead_of_releads regular member kind within own ?_ second.origin.symm
        refine .setOff lowers present (same.kind.symm.trans block) split' (fun child early => ?_)
          (first.kind.symm.trans opening) (second.kind.symm.trans closing) ?_ token' rfl
        · obtain ⟨new, there, pair⟩ := earlier.exists_of_mem_left early
          rw [← pair.kind]
          exact before new there
        · rw [← equal, ← kept, lead]
  · intro twin present' equal
    rw [regular.leaf_eq present' known (equal.trans moved.origin)]
    exact released
  · exact mayRelead_made regular made

theorem sound_block (regular : whole.Regular) (member : old ∈ whole.subtrees)
    (kind : old.kind ∈ Functions.kinds) (inherits : Inherits old tree) {body block pattern : Node}
    {statements : List Node} (lowers : Functions.Lowers old pattern)
    (present : tree.child? "body" = some body) (sound : Sound whole tree.label body)
    (each : ∀ statement ∈ statements, ∀ lead other, Sound whole other (statement.withTrivia lead))
    (prepended : Bindings.prepend? (Bindings.asBlock body) statements = some block) :
    Sound whole tree.label block := by
  obtain ⟨found, given, touched⟩ := inherits.child? present
  have kind' : tree.kind ∈ Functions.kinds := by
    rwa [inherits.kind]
  by_cases own : body.kind = Bindings.blockKind
  · have same := touched.same (by rw [isParameter, own]; decide)
    simp only [Bindings.asBlock, own, beq_self_eq_true, if_true] at prepended
    refine sound_prepend sound own each ?_ prepended
    intro left brace close rest split before opening closing lead leaf
    have known := sound_of_below sound.2 close (by simp [split])
    exact mayRelead_setOff regular member kind lowers given same own split before opening closing
      lead leaf known
  · have may := mayRelead_touched regular member kind (mem_of_child? given) touched
      fun token first => .wrapped lowers given (by rwa [← touched.kind]) first
    simp only [Bindings.asBlock, beq_iff_eq, own, if_false] at prepended
    refine sound_prepend (sound_returning sound kind' may) rfl each ?_ prepended
    intro left brace close rest split before opening closing lead leaf
    simp only [Bindings.returning, branch, children_node] at split
    cases left with
    | nil =>
        simp only [List.nil_append, List.cons.injEq] at split
        rw [← split.2.1] at closing
        exact absurd closing (show "return_statement" ≠ "\x7d" by decide)
    | cons first others =>
        simp only [List.cons_append, List.cons.injEq] at split
        have wrong := before first (by simp)
        rw [← split.1] at wrong
        exact absurd rfl wrong

theorem sound_started (regular : whole.Regular) (member : old ∈ whole.subtrees)
    (kind : tree.kind ∈ Functions.kinds) (inherits : Inherits old tree) {started : Node}
    (start : Functions.withParameters? tree = some started)
    (sound : ∀ child ∈ tree.children, Sound whole tree.label child) :
    ∀ child ∈ started.children, Sound whole tree.label child := by
  intro child present
  rcases Functions.withParameters?_cases start with
    ⟨_, rfl⟩ | ⟨unlisted, bare, left, right, single, split, rfl⟩
  · exact sound child present
  · have kind' : old.kind ∈ Functions.kinds := by
      rwa [← inherits.kind]
    obtain ⟨found, given, touched⟩ := inherits.child? single
    have may := mayRelead_touched regular member kind' (mem_of_child? given) touched
      fun token first => .parenthesized (by rwa [← inherits.hasChild]) given first
    rcases (by simpa using present : child ∈ left ∨ child = Functions.parenthesized bare ∨
      child ∈ right) with early | rfl | late
    · exact sound child (by simp [split, early])
    · exact sound_parenthesized (sound bare (mem_of_child? single)) kind may
    · exact sound child (by simp [split, late])

theorem annotates_childless {canLower : Bool} {before after bindings : List Node}
    (annotates : Functions.Annotates canLower before after bindings)
    (childless : ∀ child ∈ before, child.isLeaf = true ∧ child.children = []) :
    after = before ∧ bindings = [] := by
  have patternless (child : Node) (empty : child.children = []) (pattern : Node) :
      child.child? "pattern" ≠ some pattern := by
    simp [child?, empty]
  induction annotates with
  | nil => exact ⟨rfl, rfl⟩
  | same settled later ih =>
      obtain ⟨same, none⟩ := ih fun child member => childless child (by simp [member])
      exact ⟨by rw [same], none⟩
  | typed change later ih =>
      obtain ⟨_, _, shown, _⟩ := Functions.changeOf_annotate change
      exact absurd shown (patternless _ (childless _ (by simp)).2 _)
  | lowered number change later ih =>
      obtain ⟨_, shown, _⟩ := Functions.changeOf_lower change
      exact absurd shown (patternless _ (childless _ (by simp)).2 _)

theorem received_list {canLower : Bool} {list : Node} {children bindings : List Node}
    (sound : Sound whole parent list)
    (annotates : Functions.Annotates canLower list.children children bindings)
    (each : ∀ child ∈ children, Sound whole list.label child) :
    Received whole parent (list.withChildren children) := by
  -- The parameter list itself may be a node that a rule changes later.
  obtain ⟨here, below⟩ := sound
  refine ⟨⟨fun leaf => ?_, fun inner site => ?_, here.token⟩, (below_iff _).mpr each⟩
  · rcases here.childless leaf with empty | string
    · rw [empty] at annotates
      cases annotates
      exact .inl rfl
    · have kept := (annotates_childless annotates string.2).1
      refine .inr ⟨string.1, ?_⟩
      rw [children_withChildren, kept]
      exact string.2
  · obtain ⟨old, member, faithful⟩ := here.linked inner site
    exact ⟨old, member, faithful.label,
      touched_annotates annotates (sound_of_below below) faithful.children⟩

theorem received_signed (regular : whole.Regular) (sound : ∀ child ∈ tree.children,
      Sound whole tree.label child)
    (member : old ∈ whole.subtrees) (inherits : Inherits old tree)
    (kind : tree.kind ∈ Functions.kinds) {started list bound result : Node}
    {children bindings : List Node} (start : Functions.withParameters? tree = some started)
    (present : started.child? "parameters" = some list)
    (annotates : Functions.Annotates (started.hasChild "body") list.children children bindings)
    (binds : Functions.withBindings? bindings (Functions.listed started list children) = some bound)
    (results : Functions.Resulted bound result) :
    ∀ child ∈ result.children, Received whole tree.label child := by
  have kind' : old.kind ∈ Functions.kinds := by
    rwa [← inherits.kind]
  have begun := sound_started regular member kind inherits start sound
  have given := begun list (mem_of_child? present)
  have parts := sound_annotates annotates (sound_of_below given.2) fun child below pattern change => by
    obtain ⟨found, lowers, relocated⟩ :=
      Functions.lowers_of_change inherits start present below change
    exact mayRelead_lowered regular member kind' lowers relocated
  intro child below
  rcases Functions.mem_signed start present binds results below with
    kept | rfl | ⟨nonempty, body, shown, prepended⟩ | rfl
  · exact (begun child kept).received
  · exact received_list given annotates parts.1
  · obtain ⟨parameter, pattern, inside, change⟩ := annotates.lowered_of_ne_nil nonempty
    obtain ⟨found, lowers, _⟩ := Functions.lowers_of_change inherits start present inside change
    exact (sound_block regular member kind' inherits lowers shown
      (sound body (mem_of_child? shown)) parts.2 prepended).received
  · exact (sound_hint _ _).received

theorem Sound.withChildren (sound : Sound whole parent tree) (other : tree.kind ∉ siteKinds)
    (plain : tree.kind ≠ "string") {children : List Node}
    (each : ∀ child ∈ children, Sound whole tree.label child)
    (fewer : tree.children = [] → children = []) :
    Sound whole parent (tree.withChildren children) := by
  refine ⟨⟨fun leaf => .inl ?_, fun _ site => absurd site other, sound.1.token⟩,
    (below_iff _).mpr each⟩
  exact fewer ((sound.1.childless leaf).resolve_right fun string => plain string.1)

theorem sound_strip {child kept : Node} (sound : Sound whole parent child)
    (strip : LoopHeaders.strip child = some kept) : Sound whole parent kept := by
  unfold LoopHeaders.strip at strip
  split at strip
  next => cases strip
  next =>
    split at strip
    next declaration =>
      cases strip
      have plain : child.kind ∉ siteKinds ∧ child.kind ≠ "string" := by
        rcases LoopHeaders.kind_of_isDeclaration declaration with kind | kind <;> rw [kind] <;>
          decide
      refine sound.withChildren plain.1 plain.2 (fun part member => ?_) (by simp +contextual)
      obtain ⟨declarator, below, rfl⟩ := List.mem_map.mp member
      have known := sound_of_below sound.2 declarator below
      unfold LoopHeaders.stripDeclarator
      split
      next declares =>
        have kind : declarator.kind = "variable_declarator" := by
          simpa [LoopHeaders.isDeclarator] using declares
        refine known.withChildren (by rw [kind]; decide) (by rw [kind]; decide) ?_ ?_
        · intro part remains
          exact sound_of_below known.2 part (List.mem_of_mem_eraseP remains)
        · intro empty
          simp [empty, Children.erase]
      next => exact known
    next =>
      cases strip
      exact sound

theorem sound_sanitize (sound : ∀ child ∈ tree.children, Sound whole parent child) :
    ∀ child ∈ (LoopHeaders.sanitize tree).children, Sound whole parent child := by
  intro child member
  rcases List.mem_append.mp member with header | later
  · obtain ⟨old, present, strip⟩ := List.mem_filterMap.mp header
    exact sound_strip (sound old ((List.takeWhile_sublist _).subset present)) strip
  · exact sound child ((List.dropWhile_sublist _).subset later)

theorem sourced_of_inherits {source : Node} (member : old ∈ whole.subtrees)
    (inherits : Inherits old tree)
    (kind : tree.kind = "import_statement" ∨ tree.kind = "export_statement")
    (present : tree.child? "source" = some source) (string : source.kind = "string") :
    Sourced whole source.label := by
  obtain ⟨found, given, touched⟩ := inherits.child? present
  have same := touched.same (by rw [isParameter, string]; decide)
  exact ⟨old, member, by rwa [← inherits.kind], found, given, same.kind.symm.trans string,
    same.origin.symm⟩

theorem sound_shortened {source : Node} (sound : Sound whole parent source)
    (string : source.kind = "string") (sourced : Sourced whole source.label) (lead : String)
    (quote : Char) (specifier : String) :
    Sound whole parent (source.withChildren (Imports.quotedTokens lead quote specifier)) := by
  have other : source.kind ∉ siteKinds := by
    rw [string]
    decide
  refine ⟨⟨fun _ => .inr ⟨string, fun child member => ?_⟩, fun _ site => absurd site other,
    sound.1.token⟩, (below_iff _).mpr fun child member => ?_⟩
  · rcases (by simpa [Imports.quotedTokens] using member) with rfl | rfl | rfl <;> exact ⟨rfl, rfl⟩
  rcases (by simpa [Imports.quotedTokens] using member) with rfl | rfl | rfl
  · exact Sound.leaf (.specifier string sourced (.inr ⟨quote, rfl⟩))
  · exact Sound.leaf (.specifier string sourced (.inl rfl))
  · exact Sound.leaf (.specifier string sourced (.inr ⟨quote, rfl⟩))

theorem received_of_effect (regular : whole.Regular) {above : List Label} {handled : Node}
    (known : Received whole parent tree) (inner : tree.isLeaf = false)
    (effect : Effect above tree handled) :
    ∀ child ∈ handled.children, Received whole handled.label child := by
  have sound := sound_of_below known.2
  have same : ∀ child ∈ tree.children, Received whole tree.label child :=
    fun child member => (sound child member).received
  rw [effect.label]
  intro child member
  cases effect with
  | annotated =>
      rcases Children.mem_insertAfterMarked member with rfl | kept
      · exact (sound_hint _ _).received
      · exact same child kept
  | sanitized => exact (sound_sanitize sound child member).received
  | signed kind start list annotates binds results =>
      obtain ⟨old, below, inherits⟩ := known.1.linked inner (site_of_function kind)
      exact received_signed regular sound below inherits kind start list annotates binds results
        child member
  | shortened kind quote quoted present string =>
      obtain ⟨old, below, inherits⟩ := known.1.linked inner (site_of_import kind)
      have sourced := sourced_of_inherits below inherits kind present string
      rcases Children.mem_modify member with kept | ⟨_, _, _, rfl⟩
      · exact same child kept
      · exact (sound_shortened (sound _ (mem_of_child? present)) string sourced _ _ _).received
  | _ => exact same child member

end Rule

end ScriptTyping
