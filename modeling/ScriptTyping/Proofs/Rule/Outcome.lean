import ScriptTyping.Proofs.Rule.Run

set_option autoImplicit false

namespace ScriptTyping

open ScriptTyping.Tree

namespace Rule.Effect

variable {above : List Label} {tree handled : Node}

theorem of_other (effect : Effect above tree handled)
    (other : tree.kind ∉ "variable_declarator" :: siteKinds) : handled = tree := by
  have kinds : ∀ kind, tree.kind = kind → kind ∈ "variable_declarator" :: siteKinds → False :=
    fun kind same member => other (same ▸ member)
  cases effect with
  | annotated kind => exact absurd (by decide) (kinds _ kind)
  | sanitized kind => exact absurd (by decide) (kinds _ kind)
  | signed kind => exact (other (.tail _ (site_of_function kind))).elim
  | shortened kind => exact (other (.tail _ (site_of_import kind))).elim
  | _ => rfl

theorem of_declarator (effect : Effect above tree handled)
    (kind : tree.kind = "variable_declarator") :
    (handled = tree ∧ (tree.hasChild "name" = true →
        tree.hasChild "type" = true ∨ Declarations.inLoopHeader above = true)) ∨
      (handled = Declarations.annotate tree ∧ tree.hasChild "name" = true ∧
        Declarations.inLoopHeader above = false) := by
  cases effect with
  | declared _ done => exact .inl ⟨rfl, done⟩
  | annotated _ name free outside => exact .inr ⟨rfl, name, outside⟩
  | untouched other => exact absurd (by simp [kind]) other
  | iterated here | sanitized here => exact absurd (kind.symm.trans here) (by decide)
  | unlisted here | signed here =>
      rw [kind] at here
      exact absurd here (by decide)
  | imported here | shortened here =>
      rw [kind] at here
      exact absurd here (by decide)

theorem of_iteration (effect : Effect above tree handled)
    (kind : tree.kind = Declarations.iterationKind) :
    (handled = tree ∧ LoopHeaders.declares tree = false) ∨
      (handled = LoopHeaders.sanitize tree ∧ LoopHeaders.declares tree = true) := by
  cases effect with
  | iterated _ plain => exact .inl ⟨rfl, plain⟩
  | sanitized _ declares => exact .inr ⟨rfl, declares⟩
  | untouched other => exact (other (.tail _ (site_of_iteration kind))).elim
  | declared here | annotated here => exact absurd (kind.symm.trans here) (by decide)
  | unlisted here | signed here =>
      rw [kind] at here
      exact absurd here (by decide)
  | imported here | shortened here =>
      rw [kind] at here
      exact absurd here (by decide)

theorem of_function (effect : Effect above tree handled) (kind : tree.kind ∈ Functions.kinds) :
    (handled = tree ∧ Functions.withParameters? tree = none) ∨
      ∃ started list bound children bindings,
        Functions.withParameters? tree = some started ∧
        started.child? "parameters" = some list ∧
        Functions.Annotates (started.hasChild "body") list.children children bindings ∧
        Functions.withBindings? bindings (Functions.listed started list children) = some bound ∧
        Functions.Resulted bound handled := by
  cases effect with
  | unlisted _ none => exact .inl ⟨rfl, none⟩
  | signed _ start list annotates binds results =>
      exact .inr ⟨_, _, _, _, _, start, list, annotates, binds, results⟩
  | untouched other => exact (other (.tail _ (site_of_function kind))).elim
  | declared here | annotated here | iterated here | sanitized here =>
      rw [here] at kind
      exact absurd kind (by decide)
  | imported here | shortened here =>
      rcases here with here | here <;> rw [here] at kind <;> exact absurd kind (by decide)

theorem of_import (effect : Effect above tree handled)
    (kind : tree.kind = "import_statement" ∨ tree.kind = "export_statement") :
    (handled = tree ∧ Imports.Kept tree) ∨
      ∃ source quote quoted, tree.child? "source" = some source ∧ source.kind = "string" ∧
        source.sourceText.toList = quote :: quoted ∧
        handled = tree.withChildren (Children.replace "source"
          (source.withChildren (Imports.quotedTokens source.trivia quote
            (normalizeSpecifier (String.ofList quoted.dropLast)))) tree.children) := by
  cases effect with
  | imported _ kept => exact .inl ⟨rfl, kept⟩
  | shortened _ quote quoted present string text _ =>
      exact .inr ⟨_, quote, quoted, present, string, text, rfl⟩
  | untouched other => exact (other (.tail _ (site_of_import kind))).elim
  | declared here | annotated here | iterated here | sanitized here =>
      rcases kind with kind | kind <;> exact absurd (kind.symm.trans here) (by decide)
  | unlisted here | signed here =>
      rcases kind with kind | kind <;> rw [kind] at here <;> exact absurd here (by decide)

end Rule.Effect

namespace Functions

variable {tree : Node}

theorem hasChild_annotateParameter {child pattern : Node}
    (shown : child.child? "pattern" = some pattern) :
    (annotateParameter child).hasChild "type" = true :=
  (hasChild_iff _ _).mpr ⟨_, self_mem_insertAfterMarked _ shown, rfl⟩

theorem child?_annotateParameter (child : Node) :
    (annotateParameter child).child? "pattern" = child.child? "pattern" :=
  child?_insertAfterMarked child (by decide)

theorem annotates_typed {canLower : Bool} {before after bindings : List Node}
    (annotates : Annotates canLower before after bindings) {parameter pattern : Node}
    (member : parameter ∈ after) (kind : parameter.kind ∈ parameterKinds)
    (shown : parameter.child? "pattern" = some pattern) :
    parameter.hasChild "type" = true ∧
      (pattern.kind ∈ structuralKinds → canLower = false ∨ parameter ∈ before) := by
  -- A parameter of an annotated list has an annotation, and a pattern that takes its argument apart
  -- only if it had one before or there is no body.
  induction annotates with
  | nil => cases member
  | @same child rest others bindings settled later ih =>
      rcases List.mem_cons.mp member with rfl | below
      · rcases changeOf_cases canLower parameter with
          ⟨pass, plain⟩ | ⟨_, _, _, ⟨_, typed⟩ | ⟨lower, _⟩ | ⟨annotate, _⟩⟩
        · rcases plain with other | none
          · exact absurd kind other
          · simp [none] at shown
        · exact ⟨typed, fun _ => .inr (by simp)⟩
        · simp [lower] at settled
        · simp [annotate] at settled
      · have rest := ih below
        exact ⟨rest.1, fun structural => (rest.2 structural).imp_right fun kept => by simp [kept]⟩
  | @typed child rest others bindings change later ih =>
      rcases List.mem_cons.mp member with rfl | below
      · obtain ⟨_, found, here, _, fixed⟩ := changeOf_annotate change
        rw [child?_annotateParameter, here] at shown
        cases shown
        exact ⟨hasChild_annotateParameter here, fun structural => .inl (fixed structural)⟩
      · have rest := ih below
        exact ⟨rest.1, fun structural => (rest.2 structural).imp_right fun kept => by simp [kept]⟩
  | @lowered child found rest others bindings number change later ih =>
      rcases List.mem_cons.mp member with rfl | below
      · obtain ⟨_, here, _⟩ := changeOf_lower change
        have named := Rule.child?_renamed here (FreshNames.name number)
        rw [child?_annotateParameter, named] at shown
        cases shown
        exact ⟨hasChild_annotateParameter named, fun structural => absurd structural
          (show "identifier" ∉ structuralKinds by decide)⟩
      · have rest := ih below
        exact ⟨rest.1, fun structural => (rest.2 structural).imp_right fun kept => by simp [kept]⟩

end Functions

namespace Tree

structure SameFace (old new : Node) : Prop where
  label : new.label = old.label
  children : List.Forall₂ (fun old new : Node => new.label = old.label) old.children new.children

namespace SameFace

variable {old middle new : Node}

theorem refl (tree : Node) : SameFace tree tree :=
  ⟨rfl, List.forall₂_same.mpr fun _ _ => rfl⟩

theorem trans (first : SameFace old middle) (second : SameFace middle new) : SameFace old new :=
  ⟨second.label.trans first.label,
    first.children.comp second.children fun _ _ _ left right => right.trans left⟩

theorem hasChild (same : SameFace old new) (slot : String) :
    new.hasChild slot = old.hasChild slot :=
  hasChild_related (fun equal => congrArg Label.slot equal) same.children slot

theorem child? (same : SameFace old new) {slot : String} {child : Node}
    (present : new.child? slot = some child) :
    ∃ found, old.child? slot = some found ∧ child.label = found.label := by
  rcases child?_related (fun equal => congrArg Label.slot equal) same.children slot with
    ⟨_, none⟩ | ⟨first, second, found, here, equal⟩
  · simp [none] at present
  · rw [present] at here
    cases here
    exact ⟨first, found, equal⟩

end SameFace

end Tree

namespace Rule

variable {whole tree final handled : Node} {parent : Label} {above : List Label}

theorem unchanged_of_children (run : Converts above tree final)
    (other : tree.isLeaf = false → tree.kind ∉ "variable_declarator" :: siteKinds)
    (below : ∀ child ∈ tree.children, ∀ above final, Converts above child final → final = child) :
    final = tree := by
  rcases run.cases with ⟨_, same⟩ | ⟨inner, handled, finals, effect, rfl, pairs⟩
  · exact same
  · have same := effect.of_other (other inner)
    subst same
    have equal : List.Forall₂ (fun child final => child = final) handled.children finals :=
      ((List.forall₂_and_left _ _).mpr ⟨fun child member => member, pairs⟩).imp
        fun child final both => (below child both.1 _ final both.2).symm
    rw [List.forall₂_eq_eq_eq] at equal
    rw [← equal, withChildren_children]

theorem unchanged (run : Converts above tree final)
    (plain : ∀ part ∈ tree.subtrees, part.isLeaf = false →
      part.kind ∉ "variable_declarator" :: siteKinds) : final = tree := by
  induction tree using Tree.induct generalizing above final with
  | node label children ih =>
      refine unchanged_of_children run (plain _ (self_mem_subtrees _)) ?_
      intro child member above final run
      exact ih child member run fun part lower => plain part (mem_subtrees_of_child member lower)

theorem unchanged_string (run : Converts above tree final) (string : tree.kind = "string")
    (tokens : ∀ child ∈ tree.children, child.isLeaf = true) : final = tree := by
  refine unchanged_of_children run (fun _ => by rw [string]; decide) ?_
  intro child member above final run
  rcases run.cases with ⟨_, same⟩ | ⟨inner, _⟩
  · exact same
  · rw [tokens child member] at inner
    cases inner

theorem forall₂_label_refl (trees : List Node) :
    List.Forall₂ (fun old new : Node => new.label = old.label) trees trees :=
  List.forall₂_same.mpr fun _ _ => rfl

theorem labels_annotates {canLower : Bool} {before after bindings : List Node}
    (annotates : Functions.Annotates canLower before after bindings) :
    List.Forall₂ (fun old new : Node => new.label = old.label) before after := by
  induction annotates with
  | nil => exact .nil
  | same _ _ ih | typed _ _ ih | lowered _ _ _ ih => exact .cons rfl ih

theorem face_of_effect (effect : Effect above tree handled) {child : Node}
    (member : child ∈ handled.children) (kind : child.kind ∈ Functions.parameterKinds) :
    ∃ old ∈ tree.children, SameFace old child := by
  cases effect with
  | annotated =>
      rcases Children.mem_insertAfterMarked member with rfl | kept
      · exact absurd kind (show "type_annotation" ∉ Functions.parameterKinds by decide)
      · exact ⟨child, kept, .refl child⟩
  | sanitized =>
      rcases List.mem_append.mp member with header | later
      · obtain ⟨old, present, strip⟩ := List.mem_filterMap.mp header
        have below := (List.takeWhile_sublist _).subset present
        unfold LoopHeaders.strip at strip
        split at strip
        next => cases strip
        next =>
          split at strip
          next declaration =>
            cases strip
            rw [kind_withChildren] at kind
            rcases LoopHeaders.kind_of_isDeclaration declaration with here | here <;>
              rw [here] at kind <;> exact absurd kind (by decide)
          next =>
            cases strip
            exact ⟨_, below, .refl _⟩
      · exact ⟨child, (List.dropWhile_sublist _).subset later, .refl child⟩
  | shortened _ _ _ present string =>
      rcases Children.mem_modify member with kept | ⟨_, _, _, rfl⟩
      · exact ⟨child, kept, .refl child⟩
      · rw [kind_withChildren, string] at kind
        exact absurd kind (by decide)
  | @signed _ started list bound result children bindings start present annotates binds results =>
      have begun : ∀ child ∈ started.children, child.kind ∈ Functions.parameterKinds →
          child ∈ tree.children := by
        intro child member kind
        rcases Functions.withParameters?_cases start with
          ⟨_, rfl⟩ | ⟨_, bare, left, right, _, split, rfl⟩
        · exact member
        · rcases (by simpa using member : child ∈ left ∨ child = Functions.parenthesized bare ∨
            child ∈ right) with early | rfl | late
          · simp [split, early]
          · exact absurd kind (show "formal_parameters" ∉ Functions.parameterKinds by decide)
          · simp [split, late]
      rcases Functions.mem_signed start present binds results member with
        kept | rfl | ⟨_, body, _, prepended⟩ | rfl
      · exact ⟨child, begun child kept kind, .refl child⟩
      · exact ⟨list, begun list (mem_of_child? present) kind, rfl, labels_annotates annotates⟩
      · obtain ⟨_, _, _, _, _, _, rfl⟩ := Bindings.prepend?_cases prepended
        rw [kind_withChildren, Functions.kind_asBlock] at kind
        exact absurd kind (by decide)
      · exact absurd kind (show "type_annotation" ∉ Functions.parameterKinds by decide)
  | _ => exact ⟨child, member, .refl child⟩

theorem face_of_follows (regular : whole.Regular) (follows : Follows whole parent above tree final)
    {child : Node} (member : child ∈ final.children)
    (kind : child.kind ∈ Functions.parameterKinds) : ∃ old ∈ tree.children, SameFace old child := by
  rcases follows.cases regular with ⟨_, rfl⟩ | ⟨inner, handled, finals, effect, rfl, pairs⟩
  · exact ⟨child, member, .refl child⟩
  · obtain ⟨middle, present, below⟩ := pairs.exists_of_mem_right member
    rw [below.kind] at kind
    obtain ⟨old, given, same⟩ := face_of_effect effect present kind
    refine ⟨old, given, same.trans ⟨below.label, ?_⟩⟩
    rcases below.cases regular with ⟨_, rfl⟩ | ⟨_, handled, finals, effect, rfl, deeper⟩
    · exact forall₂_label_refl _
    · have plain : middle.kind ∉ "variable_declarator" :: siteKinds := by
        simp only [Functions.parameterKinds, List.mem_cons, List.not_mem_nil, or_false] at kind
        rcases kind with kind | kind <;> rw [kind] <;> decide
      rw [effect.of_other plain] at deeper
      exact deeper.imp fun _ _ follows => follows.label

theorem hasChild_final {related : List Label} {finals : List Node}
    (pairs : List.Forall₂ (Follows whole handled.label related) handled.children finals)
    (slot : String) : (handled.withChildren finals).hasChild slot = handled.hasChild slot :=
  hasChild_related Follows.slot pairs slot

theorem child?_final {related : List Label} {finals : List Node}
    (pairs : List.Forall₂ (Follows whole handled.label related) handled.children finals)
    {slot : String} {final : Node} (present : (handled.withChildren finals).child? slot = some final) :
    ∃ child, handled.child? slot = some child ∧ Follows whole handled.label related child final := by
  rcases @child?_related _ Follows.slot handled (handled.withChildren finals) pairs slot with
    ⟨_, none⟩ | ⟨child, other, found, here, follows⟩
  · simp [none] at present
  · rw [present] at here
    cases here
    exact ⟨child, found, follows⟩

section Function

variable {related : List Label} {finals : List Node} (regular : whole.Regular)
  (kind : tree.kind ∈ Functions.kinds) (effect : Effect above tree handled)
  (pairs : List.Forall₂ (Follows whole handled.label related) handled.children finals)

include kind effect

include regular pairs in
theorem parameters_typed {list parameter pattern : Node}
    (given : (handled.withChildren finals).child? "parameters" = some list)
    (member : parameter ∈ list.children) (parameterKind : parameter.kind ∈ Functions.parameterKinds)
    (shown : parameter.child? "pattern" = some pattern) :
    parameter.hasChild "type" = true ∧ (pattern.kind ∈ Functions.structuralKinds →
      handled.hasChild "body" = false ∨ ∃ started earlier old,
        Functions.withParameters? tree = some started ∧
        started.child? "parameters" = some earlier ∧ old ∈ earlier.children ∧
        SameFace old parameter) := by
  obtain ⟨before, present, follows⟩ := child?_final pairs given
  rcases effect.of_function kind with
    ⟨rfl, none⟩ | ⟨started, earlier, bound, children, bindings, start, found, annotates, binds,
      results⟩
  · have absent := (Functions.withParameters?_none none).1
    rw [hasChild_of_child? present] at absent
    cases absent
  · rw [Functions.signed_list found binds results] at present
    cases present
    obtain ⟨old, annotated, same⟩ := face_of_follows regular follows member parameterKind
    obtain ⟨first, here, equal⟩ := same.child? shown
    have kinds : pattern.kind = first.kind := congrArg Label.kind equal
    have typed := Functions.annotates_typed annotates annotated
      (by rwa [Tree.kind, ← same.label]) here
    refine ⟨(same.hasChild "type").trans typed.1, fun structural => ?_⟩
    rw [kinds] at structural
    rcases typed.2 structural with fixed | kept
    · exact .inl ((Functions.signed_body found binds results).trans fixed)
    · exact .inr ⟨started, earlier, old, start, found, kept, same⟩

include pairs in
theorem listed_final (bare : (handled.withChildren finals).hasChild "parameter" = true) :
    (handled.withChildren finals).hasChild "parameters" = true := by
  rw [hasChild_final pairs] at bare ⊢
  rcases effect.of_function kind with
    ⟨rfl, none⟩ | ⟨started, earlier, bound, children, bindings, start, found, _, binds, results⟩
  · rw [(Functions.withParameters?_none none).2] at bare
    cases bare
  · exact hasChild_of_child? (Functions.signed_list found binds results)

include pairs in
theorem result_typed (listed : (handled.withChildren finals).hasChild "parameters" = true) :
    (handled.withChildren finals).hasChild "return_type" = true ∨
      ∃ started list children bindings name,
        Functions.withParameters? tree = some started ∧
        started.child? "parameters" = some list ∧
        Functions.withBindings? bindings (Functions.listed started list children) = some handled ∧
        Functions.resultless? handled = some name := by
  rw [hasChild_final pairs] at listed ⊢
  rcases effect.of_function kind with
    ⟨rfl, none⟩ | ⟨started, list, bound, children, bindings, start, found, _, binds, results⟩
  · rw [(Functions.withParameters?_none none).1] at listed
    cases listed
  · have present : bound.child? "parameters" = some (list.withChildren children) := by
      rw [Functions.child?_bound binds (by decide), Functions.child?_list found]
    rcases Functions.hasChild_resulted results present with typed | ⟨rfl, name, barred⟩
    · exact .inl typed
    · exact .inr ⟨started, list, children, bindings, name, start, found, binds, barred⟩

end Function

theorem declarator_typed {related : List Label} {finals : List Node}
    (kind : tree.kind = "variable_declarator") (effect : Effect above tree handled)
    (pairs : List.Forall₂ (Follows whole handled.label related) handled.children finals)
    (named : (handled.withChildren finals).hasChild "name" = true) :
    (handled.withChildren finals).hasChild "type" = true ∨
      Declarations.inLoopHeader above = true := by
  rw [hasChild_final pairs] at named ⊢
  rcases effect.of_declarator kind with ⟨rfl, done⟩ | ⟨rfl, name, _⟩
  · exact done named
  · obtain ⟨found, present⟩ := child?_of_hasChild name
    exact .inl ((hasChild_iff _ _).mpr ⟨_, self_mem_insertAfterMarked _ present, rfl⟩)

theorem declarator_in_header (regular : whole.Regular)
    (follows : Follows whole parent above tree final) (kind : tree.kind = "variable_declarator")
    (header : Declarations.inLoopHeader above = true) :
    List.Forall₂ (fun old new : Node => new.label = old.label) tree.children final.children := by
  rcases follows.cases regular with ⟨_, rfl⟩ | ⟨_, handled, finals, effect, rfl, pairs⟩
  · exact forall₂_label_refl _
  · rcases effect.of_declarator kind with ⟨rfl, _⟩ | ⟨_, _, outside⟩
    · exact pairs.imp fun _ _ follows => follows.label
    · rw [header] at outside
      cases outside

end Rule

namespace LoopHeaders

theorem not_isParameter {tree : Node} (declares : isDeclaration tree = true) :
    tree.isParameter = false := by
  rcases kind_of_isDeclaration declares with kind | kind <;>
    simp [isParameter, kind, Functions.parameterKinds]

theorem label_strip {child kept : Node} (strip : strip child = some kept) :
    kept.label = child.label := by
  unfold LoopHeaders.strip at strip
  split at strip
  next => cases strip
  next => split at strip <;> cases strip <;> rfl

theorem label_stripDeclarator (tree : Node) : (stripDeclarator tree).label = tree.label := by
  unfold stripDeclarator
  split <;> rfl

theorem header_append {front back : List Node}
    (before : ∀ child ∈ front, Children.inSlot "body" child = false)
    (stop : header back = []) : header (front ++ back) = front := by
  unfold header at stop ⊢
  rw [List.takeWhile_append_of_pos (by simpa using before), stop, List.append_nil]

theorem header_sanitize (tree : Node) :
    header (sanitize tree).children = (header tree.children).filterMap strip := by
  refine header_append (fun child member => ?_) ?_
  · obtain ⟨old, present, kept⟩ := List.mem_filterMap.mp member
    have outside := List.all_eq_true.mp List.all_takeWhile old present
    simpa [Children.inSlot, Tree.slot, label_strip kept] using outside
  · unfold header afterHeader
    generalize tree.children = children
    induction children with
    | nil => rfl
    | cons child rest ih =>
        rw [List.dropWhile_cons]
        split
        next => exact ih
        next inside => simp [inside]

theorem header_related {related : Node → Node → Prop}
    (slots : ∀ {old new}, related old new → new.slot = old.slot) {olds news : List Node}
    (pairs : List.Forall₂ related olds news) : List.Forall₂ related (header olds) (header news) :=
  takeWhile_related slots pairs

theorem two_types {declarator : Node}
    (typed : (declarator.withChildren (Children.erase "type" declarator.children)).hasChild "type" =
      true) : 2 ≤ declarator.children.countP (Children.inSlot "type") := by
  obtain ⟨child, member, inside⟩ := (hasChild_iff _ _).mp typed
  have first := List.mem_of_mem_eraseP member
  obtain ⟨found, present⟩ := child?_of_hasChild ((hasChild_iff _ _).mpr ⟨child, first, inside⟩)
  obtain ⟨left, right, split, before, here⟩ := (child?_eq_some_iff _ _ _).mp present
  have other : 0 < (left ++ right).countP (Children.inSlot "type") := by
    rw [children_withChildren, split, Children.erase_split before here] at member
    exact List.countP_pos_iff.mpr ⟨child, member, (Children.inSlot_iff _ _).mpr inside⟩
  rw [split]
  simp only [List.countP_append, List.countP_cons, here, if_true] at other ⊢
  omega

end LoopHeaders

namespace Rule

variable {whole tree handled : Node} {above : List Label}

theorem declares_related {related : Node → Node → Prop}
    (slots : ∀ {old new}, related old new → new.slot = old.slot)
    (kinds : ∀ {old new}, related old new → new.kind = old.kind) {old new : Node}
    (pairs : List.Forall₂ related old.children new.children) :
    LoopHeaders.declares new = LoopHeaders.declares old := by
  have headers := LoopHeaders.header_related slots pairs
  rw [LoopHeaders.declares, LoopHeaders.declares, hasChild_related slots pairs]
  congr 1
  generalize LoopHeaders.header old.children = olds at headers
  generalize LoopHeaders.header new.children = news at headers
  induction headers with
  | nil => rfl
  | cons here later ih => simp [LoopHeaders.isDeclaration, kinds here, ih]

theorem declarators_follow (regular : whole.Regular) {declaration final : Node}
    (declares : LoopHeaders.isDeclaration declaration = true)
    (inside : Children.inSlot "body" declaration = false)
    (loop : handled.kind = Declarations.iterationKind)
    (follows : Follows whole handled.label ((handled.label :: above).take 2) declaration final) :
    List.Forall₂ (fun source declarator : Node => declarator.label = source.label ∧
      (LoopHeaders.isDeclarator declarator = true → SameFace source declarator))
      declaration.children final.children := by
  rcases follows.cases regular with ⟨_, rfl⟩ | ⟨_, handled', finals, effect, rfl, pairs⟩
  · exact List.forall₂_same.mpr fun declarator _ => ⟨rfl, fun _ => .refl declarator⟩
  · have plain : declaration.kind ∉ "variable_declarator" :: siteKinds := by
      rcases LoopHeaders.kind_of_isDeclaration declares with here | here <;> rw [here] <;> decide
    rw [effect.of_other plain] at pairs
    have header : Declarations.inLoopHeader
        ((declaration.label :: (handled.label :: above).take 2).take 2) = true := by
      have outside : declaration.label.slot ≠ some "body" := by
        simpa [Children.inSlot, Tree.slot] using inside
      have loop' : handled.label.kind = Declarations.iterationKind := loop
      simp [Declarations.inLoopHeader, loop', outside]
    refine pairs.imp fun source declarator below => ⟨below.label, fun kind => ?_⟩
    have declares' : source.kind = "variable_declarator" := by
      rw [← below.kind]
      simpa [LoopHeaders.isDeclarator] using kind
    exact ⟨below.label, declarator_in_header regular below declares' header⟩

theorem header_bare (regular : whole.Regular) (kind : tree.kind = Declarations.iterationKind)
    (effect : Effect above tree handled) {finals : List Node}
    (pairs : List.Forall₂ (Follows whole handled.label ((handled.label :: above).take 2))
      handled.children finals)
    (declares : LoopHeaders.declares (handled.withChildren finals) = true) {child : Node}
    (member : child ∈ LoopHeaders.header finals) :
    child.kind ≠ "type_annotation" ∧ (LoopHeaders.isDeclaration child = true →
      ∀ declarator ∈ child.children, LoopHeaders.isDeclarator declarator = true →
        declarator.hasChild "type" = true →
        ∃ before ∈ LoopHeaders.header tree.children, LoopHeaders.isDeclaration before = true ∧
          ∃ source ∈ before.children, source.label = declarator.label ∧
            2 ≤ source.children.countP (Children.inSlot "type")) := by
  -- In the header of a finished loop that declares its variable there is no annotation, except
  -- where a declarator had several.
  have declared : LoopHeaders.declares handled = true :=
    (declares_related Follows.slot Follows.kind pairs).symm.trans declares
  have loop : handled.kind = Declarations.iterationKind := by
    rw [Tree.kind, effect.label]
    exact kind
  rcases effect.of_iteration kind with ⟨rfl, plain⟩ | ⟨rfl, _⟩
  · simp [plain] at declared
  · have headers := LoopHeaders.header_related Follows.slot pairs
    obtain ⟨stripped, present, follows⟩ := headers.exists_of_mem_right member
    have inside := List.all_eq_true.mp List.all_takeWhile stripped present
    rw [LoopHeaders.header_sanitize] at present
    obtain ⟨before, given, strip⟩ := List.mem_filterMap.mp present
    have kinds : child.kind = before.kind := by
      rw [follows.kind]
      exact congrArg Label.kind (LoopHeaders.label_strip strip)
    unfold LoopHeaders.strip at strip
    split at strip
    next => cases strip
    next other =>
      refine ⟨by simpa [LoopHeaders.isTypeHint, kinds] using other, fun declaration => ?_⟩
      intro declarator below isDeclarator typed
      have declaration' : LoopHeaders.isDeclaration before = true := by
        simpa [LoopHeaders.isDeclaration, kinds] using declaration
      simp only [declaration', if_true, Option.some.injEq] at strip
      subst strip
      have stripped : LoopHeaders.isDeclaration (before.withChildren
          (before.children.map LoopHeaders.stripDeclarator)) = true := declaration'
      obtain ⟨source, mapped, _, kept⟩ := (declarators_follow regular stripped
        (by simpa using inside) loop follows).exists_of_mem_right below
      have same := kept isDeclarator
      obtain ⟨original, here, rfl⟩ := List.mem_map.mp mapped
      have label : original.label = declarator.label := by
        rw [same.label, LoopHeaders.label_stripDeclarator]
      refine ⟨before, given, declaration', original, here, label, ?_⟩
      have kind' : LoopHeaders.isDeclarator original = true := by
        simpa [LoopHeaders.isDeclarator, Tree.kind, label] using isDeclarator
      rw [same.hasChild, LoopHeaders.stripDeclarator, if_pos kind'] at typed
      exact LoopHeaders.two_types typed

end Rule

end ScriptTyping
