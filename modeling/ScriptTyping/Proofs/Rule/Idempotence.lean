import ScriptTyping.Proofs.Rule.Completeness
import ScriptTyping.Proofs.Walk.Rest

set_option autoImplicit false

namespace ScriptTyping

open ScriptTyping.Tree

-- Only notes on nodes that are left alone have been recorded.
def Session.Quiet (before after : Session) : Prop :=
  ∃ entries : List Entry,
    (∀ entry ∈ entries, ∃ subject outcome reason, entry = .decision subject outcome reason) ∧
      after.trace = entries.foldl Trace.record before.trace

namespace Session.Quiet

theorem refl (session : Session) : Quiet session session := ⟨[], by simp, rfl⟩

theorem trans (first second third : Session) (left : Quiet first second)
    (right : Quiet second third) : Quiet first third := by
  obtain ⟨earlier, notes, reached⟩ := left
  obtain ⟨later, others, ended⟩ := right
  refine ⟨earlier ++ later, fun entry member => ?_, ?_⟩
  · rcases List.mem_append.mp member with before | after
    · exact notes entry before
    · exact others entry after
  · rw [List.foldl_append, ← reached, ended]

theorem note (session : Session) (subject outcome reason : String) (marked : List Nat) :
    Quiet session ({ session with marked }.record (.decision subject outcome reason)) :=
  ⟨[.decision subject outcome reason], by simp, rfl⟩

end Session.Quiet

namespace Rule

structure Tidy (before : Node) : Prop where
  trailless : ∀ child ∈ before.children, child.Trailless
  typed : ∀ part ∈ before.subtrees, part.kind = "variable_declarator" →
    part.children.countP (Children.inSlot "type") ≤ 1
  quoted : ∀ part ∈ before.subtrees, part.kind = "import_statement" ∨ part.kind = "export_statement" →
    ∀ source ∈ part.child? "source", source.kind = "string" →
      source.isLeaf = false ∧ (∀ child ∈ source.children, child.isLeaf = true) ∧
        ∀ extension ∈ sourceExtensions, ¬ extension.toList <:+
          (normalizeSpecifier (String.ofList source.sourceText.toList.tail.dropLast)).toList

def PlainConstructors (before : Node) : Prop :=
  ∀ method ∈ before.subtrees, method.kind = "method_definition" →
    ∀ name ∈ method.child? "name", name.sourceText = "constructor" →
      ∀ part ∈ name.subtrees, part.isLeaf = false → part.kind ∉ "variable_declarator" :: siteKinds

variable {whole tree handled final : Node} {parent : Label} {above : List Label}

def Calm (above : List Label) (tree : Node) : Prop :=
  ∀ session, ∃ after, Session.Quiet session after ∧
    applyHandlers above ((table all).handlersFor tree.kind) tree session = ⟨tree, after, none⟩

theorem Tidy.trailless_below (tidy : Tidy whole) {part child : Node} (member : part ∈ whole.subtrees)
    (below : child ∈ part.children) : child.Trailless := by
  rcases (mem_subtrees_iff _ _).mp member with rfl | ⟨top, present, lower⟩
  · exact tidy.trailless child below
  · exact fun leaf deep =>
      tidy.trailless top present leaf (mem_subtrees_trans (mem_subtrees_of_child below deep) lower)

theorem part_of_sameButLead {old new part : Node} (same : SameButLead old new)
    (member : part ∈ new.subtrees) :
    ∃ found ∈ old.subtrees, found.kind = part.kind ∧ found.isLeaf = part.isLeaf := by
  induction new using induct generalizing old with
  | node label children ih =>
      rcases (mem_subtrees_iff _ _).mp member with rfl | ⟨child, present, lower⟩
      · exact ⟨old, self_mem_subtrees old, same.kind.symm, same.isLeaf.symm⟩
      · obtain ⟨before, given, pair⟩ := same.children.exists_of_mem_right present
        obtain ⟨found, below, kind⟩ := ih child present pair lower
        exact ⟨found, mem_subtrees_of_child given below, kind⟩

theorem calm_declarator (kind : final.kind = "variable_declarator")
    (typed : final.hasChild "name" = true →
      final.hasChild "type" = true ∨ Declarations.inLoopHeader above = true) :
    Calm above final := by
  intro session
  rw [kind, handlersFor_declarator, applyHandlers_one]
  simp only [Declarations.handler, Declarations.handle]
  cases present : final.child? "name" with
  | none => exact ⟨session, .refl session, rfl⟩
  | some name =>
      cases annotated : final.hasChild "type" with
      | true => exact ⟨_, .note session _ _ _ session.marked, rfl⟩
      | false =>
          have header := (typed (hasChild_of_child? present)).resolve_left (by simp [annotated])
          simp only [header, if_true, Bool.false_eq_true, if_false]
          exact ⟨_, .note session _ _ _ session.marked, rfl⟩

theorem annotateParameters_settled (taken : List String) {canLower : Bool} {children : List Node}
    (settled : ∀ child ∈ children,
      Functions.changeOf canLower child = .pass ∨ Functions.changeOf canLower child = .keep)
    (number : Nat) (session : Session) : ∃ after, Session.Quiet session after ∧
      Functions.annotateParameters taken canLower children number session =
        ⟨children, [], after⟩ := by
  induction children generalizing session with
  | nil => exact ⟨session, .refl session, rfl⟩
  | cons child rest ih =>
      have later := fun session => ih (fun other member => settled other (by simp [member])) session
      rw [Functions.annotateParameters]
      rcases settled child (by simp) with pass | keep
      · obtain ⟨after, quiet, same⟩ := later session
        exact ⟨after, quiet, by rw [pass]; simp [same]⟩
      · obtain ⟨after, quiet, same⟩ :=
          later (session.record (.decision child.sourceText "kept" "explicit annotation"))
        refine ⟨after, .trans _ _ _ (.note session _ _ _ session.marked) quiet, ?_⟩
        rw [keep]
        simp [same]

theorem calm_function (kind : final.kind ∈ Functions.kinds)
    (listed : final.hasChild "parameter" = true → final.hasChild "parameters" = true)
    (typed : ∀ list, final.child? "parameters" = some list → ∀ parameter ∈ list.children,
      parameter.kind ∈ Functions.parameterKinds → ∀ pattern,
      parameter.child? "pattern" = some pattern → parameter.hasChild "type" = true)
    (result : final.hasChild "parameters" = true →
      final.hasChild "return_type" = true ∨ ∃ name, Functions.resultless? final = some name) :
    Calm above final := by
  intro session
  rw [handlersFor_function kind, applyHandlers_one]
  simp only [Functions.handler, Functions.handle, Functions.withParameters?]
  cases present : final.hasChild "parameters" with
  | false =>
      have bare : final.hasChild "parameter" = false := by
        by_contra bare
        exact absurd (listed (by simpa using bare)) (by simp [present])
      exact ⟨session, .refl session, by simp [bare]⟩
  | true =>
      obtain ⟨list, found⟩ := child?_of_hasChild present
      have settled : ∀ child ∈ list.children,
          Functions.changeOf (final.hasChild "body") child = .pass ∨
            Functions.changeOf (final.hasChild "body") child = .keep := by
        intro child member
        rcases Functions.changeOf_cases (final.hasChild "body") child with
          ⟨pass, _⟩ | ⟨parameter, pattern, shown, ⟨keep, _⟩ | ⟨_, free, _⟩ | ⟨_, free, _⟩⟩
        · exact .inl pass
        · exact .inr keep
        · simp [typed list found child member parameter pattern shown] at free
        · simp [typed list found child member parameter pattern shown] at free
      obtain ⟨middle, quiet, same⟩ :=
        annotateParameters_settled (Functions.takenNames final list) settled 0 session
      obtain ⟨left, right, split, _, equal⟩ := Functions.listed_split found list.children
      have itself : final.withChildren (Children.replace "parameters" list final.children) =
          final := by
        rw [withChildren_children] at equal
        rw [Functions.listed, withChildren_children] at equal
        rw [equal, ← split, withChildren_children]
      simp only [if_true, found, same, withChildren_children, itself, Functions.withBindings?,
        Functions.annotateResult]
      rcases result present with annotated | ⟨name, barred⟩
      · exact ⟨middle, quiet, by simp [annotated]⟩
      · by_cases annotated : final.hasChild "return_type" = true
        · exact ⟨middle, quiet, by simp [annotated]⟩
        · simp only [annotated, Bool.false_eq_true, if_false, barred]
          exact ⟨_, .trans _ _ _ quiet (.note middle _ _ _ middle.marked), rfl⟩

theorem resultless?_final {related : List Label} {finals : List Node} {name : Node}
    (pairs : List.Forall₂ (Follows whole handled.label related) handled.children finals)
    (barred : Functions.resultless? handled = some name)
    (plain : name.sourceText = "constructor" → ∀ part ∈ name.subtrees, part.isLeaf = false →
      part.kind ∉ "variable_declarator" :: siteKinds) :
    ∃ name, Functions.resultless? (handled.withChildren finals) = some name := by
  obtain ⟨kind, shown, condition⟩ := resultless?_cases barred
  rcases @child?_related _ Follows.slot handled (handled.withChildren finals) pairs "name" with
    ⟨none, _⟩ | ⟨first, second, here, there, follows⟩
  · simp [none] at shown
  · rw [shown] at here
    cases here
    have marked : second.sourceText = "constructor" ∨
        ∃ mark ∈ finals.takeWhile fun child => !Children.inSlot "name" child,
          mark.isLeaf = true ∧ mark.kind = "set" := by
      rcases condition with text | ⟨mark, member, leaf, setter⟩
      · exact .inl (by rwa [unchanged follows.run (plain text)])
      · have early := @takeWhile_related _ "name" _ _ Follows.slot pairs
        obtain ⟨other, present, same⟩ := early.exists_of_mem_left member
        exact .inr ⟨other, present, same.isLeaf.trans leaf, same.kind.trans setter⟩
    refine ⟨second, ?_⟩
    rw [Functions.resultless?, kind_withChildren, kind, there]
    simpa using marked

theorem constructor_plain (tidy : Tidy whole) (plain : PlainConstructors whole) {old name : Node}
    (member : old ∈ whole.subtrees) (inherits : Inherits old tree)
    (kind : tree.kind = "method_definition") (shown : tree.child? "name" = some name)
    (text : name.sourceText = "constructor") :
    ∀ part ∈ name.subtrees, part.isLeaf = false →
      part.kind ∉ "variable_declarator" :: siteKinds := by
  -- The name of a constructor is printed as it was read, so no rule changes it.
  obtain ⟨found, given, touched⟩ := inherits.child? shown
  have same := sameButLead_of_constructor touched text
  have trailless := tidy.trailless_below member (mem_of_child? given)
  rw [trailless.sourceText_eq same] at text
  rw [inherits.kind] at kind
  intro part below inner
  obtain ⟨source, within, kinds, leaf⟩ := part_of_sameButLead same below
  rw [← kinds]
  exact plain old member kind found given text source within (leaf.trans inner)

theorem strip_bare {child : Node} (other : child.kind ≠ "type_annotation")
    (bare : LoopHeaders.isDeclaration child = true → ∀ declarator ∈ child.children,
      declarator.kind = "variable_declarator" → declarator.hasChild "type" = false) :
    LoopHeaders.strip child = some child ∧ LoopHeaders.loses child = false := by
  have hint : LoopHeaders.isTypeHint child = false := by simpa [LoopHeaders.isTypeHint] using other
  cases declaration : LoopHeaders.isDeclaration child with
  | false => simp [LoopHeaders.strip, LoopHeaders.loses, hint, declaration]
  | true =>
      have kept : child.children.map LoopHeaders.stripDeclarator = child.children := by
        rw [List.map_congr_left (g := id), List.map_id]
        intro declarator member
        unfold LoopHeaders.stripDeclarator
        split
        next kind =>
          have free := bare declaration declarator member (by simpa [LoopHeaders.isDeclarator] using kind)
          rw [hasChild_eq_false_iff, child?_eq_none_iff] at free
          rw [Children.erase_absent "type" free, withChildren_children, id]
        next => rfl
      refine ⟨by simp [LoopHeaders.strip, hint, declaration, kept, withChildren_children], ?_⟩
      simpa [LoopHeaders.loses, hint, declaration, LoopHeaders.isDeclarator] using
        fun declarator member kind => bare declaration declarator member kind

theorem calm_iteration (kind : final.kind = Declarations.iterationKind)
    (header : LoopHeaders.declares final = true → ∀ child ∈ LoopHeaders.header final.children,
      child.kind ≠ "type_annotation" ∧ (LoopHeaders.isDeclaration child = true →
        ∀ declarator ∈ child.children, declarator.kind = "variable_declarator" →
          declarator.hasChild "type" = false)) : Calm above final := by
  intro session
  rw [kind, handlersFor_iteration, applyHandlers_one]
  simp only [LoopHeaders.handler, LoopHeaders.handle]
  cases declares : LoopHeaders.declares final with
  | false => exact ⟨session, .refl session, rfl⟩
  | true =>
      have each := fun child member =>
        strip_bare (header declares child member).1 (header declares child member).2
      have kept : (LoopHeaders.header final.children).filterMap LoopHeaders.strip =
          LoopHeaders.header final.children := by
        rw [List.filterMap_congr (g := some) fun child member => (each child member).1,
          List.filterMap_some]
      have same : LoopHeaders.sanitize final = final := by
        rw [LoopHeaders.sanitize, kept, LoopHeaders.header, LoopHeaders.afterHeader,
          List.takeWhile_append_dropWhile, withChildren_children]
      have quiet : (LoopHeaders.header final.children).any LoopHeaders.loses = false := by
        simpa using fun child member => (each child member).2
      exact ⟨session, .refl session, by simp [quiet, same]⟩

theorem normalizeSpecifier_plain {specifier : String}
    (plain : ∀ extension ∈ sourceExtensions, ¬ extension.toList <:+ specifier.toList) :
    normalizeSpecifier specifier = specifier := by
  have none : sourceExtensions.findSome? (fun extension =>
      beforeEnding? extension.toList specifier.toList) = none := by
    refine List.findSome?_eq_none_iff.mpr fun extension member => ?_
    simpa [beforeEnding?, List.isSuffixOf_iff_suffix] using plain extension member
  rw [normalizeSpecifier]
  simp only [none]

theorem trivia_quotedTokens {source : Node} (inner : source.isLeaf = false) (lead : String)
    (quote : Char) (specifier : String) :
    (source.withChildren (Imports.quotedTokens lead quote specifier)).trivia = lead := by
  obtain ⟨label, children⟩ := source
  rw [trivia, firstLeaf?_eq, withChildren, label_node, leaves_branch label _ inner]
  simp only [Imports.quotedTokens, List.flatMap_cons, leaves_mark]
  rfl

theorem text_quotedTokens {source : Node} (inner : source.isLeaf = false)
    (trail : source.label.trail = "") (lead : String) (quote : Char) (specifier : String) :
    (source.withChildren (Imports.quotedTokens lead quote specifier)).text =
      lead ++ quote.toString ++ specifier ++ quote.toString := by
  obtain ⟨label, children⟩ := source
  have token : label.token = none := by simpa [Tree.isLeaf, Label.isLeaf] using inner
  have text (kind token lead : String) :
      (leaf kind token lead none).text = lead ++ token := text_leaf _ _ _ rfl
  rw [withChildren, label_node, text_branch label _ token]
  simp only [Imports.quotedTokens, mark, List.map_cons, List.map_nil, text, String.join_cons,
    show label.trail = "" from trail]
  apply String.toList_injective
  simp

theorem sourceText_quotedTokens {source : Node} (inner : source.isLeaf = false)
    (trail : source.label.trail = "") (lead : String) (quote : Char) (specifier : String) :
    (source.withChildren (Imports.quotedTokens lead quote specifier)).sourceText.toList =
      quote :: (specifier.toList ++ [quote]) := by
  rw [toList_sourceText, trivia_quotedTokens inner, text_quotedTokens inner trail,
    ← String.length_toList]
  simp [List.drop_left']

theorem calm_import (kind : final.kind = "import_statement" ∨ final.kind = "export_statement")
    (kept : Imports.Kept final) : Calm above final := by
  intro session
  rw [handlersFor_import kind, applyHandlers_one]
  simp only [Imports.handler, Imports.handle]
  cases present : final.child? "source" with
  | none => exact ⟨session, .refl session, rfl⟩
  | some source =>
      by_cases string : source.kind = "string"
      · obtain ⟨quote, quoted, text, same⟩ := kept source present string
        simp only [string, bne_self_eq_false, Bool.false_eq_true, if_false, text, same, if_true]
        exact ⟨_, .note session _ _ _ session.marked, rfl⟩
      · exact ⟨session, .refl session, by simp [string]⟩

theorem calm_other (other : final.kind ∉ "variable_declarator" :: siteKinds) :
    Calm above final := by
  intro session
  rcases handlersFor_other other with none | markup
  · exact ⟨session, .refl session, by rw [none]; rfl⟩
  · rw [markup, applyHandlers_one]
    simp only [Markup.handler, Markup.handle]
    split
    · exact ⟨session, .refl session, rfl⟩
    · exact ⟨_, .note session _ _ _ (4 :: session.marked), rfl⟩

theorem kept_final {related : List Label} {finals : List Node} (tidy : Tidy whole) {old : Node}
    (member : old ∈ whole.subtrees) (inherits : Inherits old tree)
    (kind : tree.kind = "import_statement" ∨ tree.kind = "export_statement")
    (effect : Effect above tree handled)
    (pairs : List.Forall₂ (Follows whole handled.label related) handled.children finals) :
    Imports.Kept (handled.withChildren finals) := by
  intro final present string
  obtain ⟨child, shown, follows⟩ := child?_final pairs present
  rw [follows.kind] at string
  have kind' : old.kind = "import_statement" ∨ old.kind = "export_statement" := by
    rwa [← inherits.kind]
  have read {source : Node} (here : tree.child? "source" = some source)
      (string : source.kind = "string") : ∃ found, old.child? "source" = some found ∧
        SameButLead found source ∧ found.kind = "string" := by
    obtain ⟨found, given, touched⟩ := inherits.child? here
    have same := touched.same (by rw [isParameter, string]; decide)
    exact ⟨found, given, same, same.kind.symm.trans string⟩
  rcases effect.of_import kind with
    ⟨rfl, kept⟩ | ⟨source, quote, quoted, here, string', text, rfl⟩
  · obtain ⟨found, given, same, string'⟩ := read shown string
    obtain ⟨_, tokens, _⟩ := tidy.quoted old member kind' found given string'
    have equal := unchanged_string follows.run string fun token below => by
      obtain ⟨before, below, pair⟩ := same.children.exists_of_mem_right below
      exact pair.isLeaf.trans (tokens before below)
    rw [equal]
    exact kept child shown string
  · obtain ⟨found, given, same, string''⟩ := read here string'
    obtain ⟨inner, _, short⟩ := tidy.quoted old member kind' found given string''
    have trailless := tidy.trailless_below member (mem_of_child? given)
    rw [trailless.sourceText_eq same] at text
    obtain ⟨left, right, split, before, inside⟩ := (child?_eq_some_iff _ _ _).mp here
    have changed := (child?_eq_some_iff ((tree.withChildren (left ++ source.withChildren
      (Imports.quotedTokens source.trivia quote (normalizeSpecifier (String.ofList quoted.dropLast)))
        :: right))) _ _).mpr ⟨left, right, rfl, before, inside⟩
    rw [Children.replace, split, Children.modify_split _ before inside, changed] at shown
    cases shown
    have equal := unchanged_string follows.run string fun token below => by
      rcases (by simpa [Imports.quotedTokens] using below) with rfl | rfl | rfl <;> rfl
    have trail : source.label.trail = "" := by
      obtain ⟨lead, label⟩ := same.label
      rw [label]
      exact trailless found (self_mem_subtrees found)
    rw [equal]
    refine ⟨quote, _, sourceText_quotedTokens (same.isLeaf.trans inner) trail _ _ _, ?_⟩
    rw [List.dropLast_concat, String.ofList_toList]
    rw [text] at short
    exact normalizeSpecifier_plain short

theorem calm_of_follows (regular : whole.Regular) (tidy : Tidy whole)
    (plain : PlainConstructors whole) (follows : Follows whole parent above tree final)
    (inner : final.isLeaf = false) : Calm above final := by
  have settled := settled_of_follows regular follows
  by_cases declarator : final.kind = "variable_declarator"
  · exact calm_declarator declarator (declarator_of_follows regular follows declarator)
  by_cases iteration : final.kind = Declarations.iterationKind
  · refine calm_iteration iteration fun declares child member => ?_
    have header := settled.header iteration declares child member
    refine ⟨header.1, fun declaration declarator below kind => ?_⟩
    by_contra typed
    obtain ⟨old, present, _, kind', several⟩ :=
      header.2 declaration declarator below kind (by simpa using typed)
    have single := tidy.typed old present kind'
    omega
  by_cases function : final.kind ∈ Functions.kinds
  · refine calm_function function (settled.listed function) ?_ fun listed => ?_
    · intro list present parameter member kind pattern shown
      exact (settled.parameters inner function list present parameter member kind pattern shown).1
    · rcases follows.cases regular with ⟨leaf, rfl⟩ | ⟨_, handled, finals, effect, rfl, pairs⟩
      · cases inner.symm.trans leaf
      · have kind : tree.kind ∈ Functions.kinds := by rwa [← follows.kind]
        have inner' : tree.isLeaf = false := by rwa [← follows.isLeaf]
        obtain ⟨old, within, inherits⟩ := follows.known.1.linked inner' (site_of_function kind)
        rcases result_typed kind effect pairs listed with
          typed | ⟨started, list, children, bindings, name, start, present, binds, barred⟩
        · exact .inl typed
        · refine .inr (resultless?_final pairs barred fun text => ?_)
          obtain ⟨method, shown, _⟩ := resultless?_cases barred
          rw [Functions.signed_name start present binds] at shown
          rw [Tree.kind, effect.label] at method
          exact constructor_plain tidy plain within inherits method shown text
  by_cases imported : final.kind = "import_statement" ∨ final.kind = "export_statement"
  · rcases follows.cases regular with ⟨leaf, rfl⟩ | ⟨_, handled, finals, effect, rfl, pairs⟩
    · cases inner.symm.trans leaf
    · have kind : tree.kind = "import_statement" ∨ tree.kind = "export_statement" := by
        rwa [← follows.kind]
      have inner' : tree.isLeaf = false := by rwa [← follows.isLeaf]
      obtain ⟨old, within, inherits⟩ := follows.known.1.linked inner' (site_of_import kind)
      exact calm_import imported (kept_final tidy within inherits kind effect pairs)
  · exact calm_other (other_of_cases declarator iteration function imported)

theorem rests_of_follows (regular : whole.Regular) (tidy : Tidy whole)
    (plain : PlainConstructors whole) (follows : Follows whole parent above tree final) :
    Rests (table all) Session.Quiet above final := by
  refine Follows.induct regular ?_ ?_ follows
  · intro parent above tree follows leaf
    exact .leaf leaf
  · intro parent above tree handled finals follows inner effect below
    have inner' : (handled.withChildren finals).isLeaf = false := follows.isLeaf.trans inner
    refine .inner inner' (calm_of_follows regular tidy plain follows inner') ?_
    intro child member
    obtain ⟨middle, _, _, rests⟩ := below.exists_of_mem_right member
    exact rests

/-- A second run of the rules ends without a fault, changes nothing and records no change. -/
theorem walk_idempotent (before : Node) (session : Session) (regular : before.Regular)
    (tidy : Tidy before) (plain : PlainConstructors before)
    (complete : (walk all before session).fault = none) (again : Session) :
    (walk all (walk all before session).tree again).fault = none ∧
      (walk all (walk all before session).tree again).tree = (walk all before session).tree ∧
      Session.Quiet again (walk all (walk all before session).tree again).state := by
  have rests := rests_of_follows regular tidy plain (follows_of_walk regular complete)
  have enough : 2 * (walk all before session).tree.size ≤
      stepBudget (walk all before session).tree := by
    rw [stepBudget, size_rows]
    omega
  obtain ⟨after, quiet, same⟩ :=
    Rests.walk_of_rests Session.Quiet.refl Session.Quiet.trans rests _ enough again
  change walk all (walk all before session).tree again = _ at same
  rw [same]
  exact ⟨rfl, rfl, quiet⟩

def importingModule : Node :=
  .numberedAs 0 <| .branch "program"
    [.numberedAs 1 <| .branch "import_statement"
      [.numberedAs 2 <| .mark "import" "",
       .numberedAs 3 <| .branch "string"
        [.numberedAs 4 <| .mark "'" " ",
         .numberedAs 5 <| .leaf "string_fragment" "./a.js" "" none,
         .numberedAs 6 <| .mark "'" ""] (some "source"),
       .numberedAs 7 <| .mark ";" ""] none,
     .numberedAs 8 <| .branch "lexical_declaration"
      [.numberedAs 9 <| .leaf "const" "const" "\n" (some "kind"),
       .numberedAs 10 <| .branch "variable_declarator"
        [.numberedAs 11 <| .leaf "identifier" "b" " " (some "name"),
         .numberedAs 12 <| .mark "=" " ",
         .numberedAs 13 <| .leaf "number" "1" " " (some "value")] none,
       .numberedAs 14 <| .mark ";" ""] none] none

theorem importingModule_idempotent :
    (importingModule.Regular ∧ Tidy importingModule ∧ PlainConstructors importingModule ∧
      (walk all importingModule (.start .empty)).fault = none) ∧
    (walk all (walk all importingModule (.start .empty)).tree (.start .empty)).tree =
      (walk all importingModule (.start .empty)).tree := by
  have regular : importingModule.Regular := ⟨by decide, by decide, by decide⟩
  have tidy : Tidy importingModule := by
    refine ⟨?_, by decide, by decide +kernel⟩
    unfold Trailless
    decide
  have methods : ∀ part ∈ importingModule.subtrees, part.kind ≠ "method_definition" := by decide
  have plain : PlainConstructors importingModule :=
    fun method member kind => absurd kind (methods method member)
  have complete : (walk all importingModule (.start .empty)).fault = none := by decide +kernel
  exact ⟨⟨regular, tidy, plain, complete⟩,
    (walk_idempotent _ _ regular tidy plain complete (.start .empty)).2.1⟩

def declaredName : Node :=
  .numberedAs 0 <| .branch "method_definition"
    [.numberedAs 1 <| .branch "variable_declarator"
      [.numberedAs 2 <| .leaf "identifier" "constructor" "" (some "name")] (some "name"),
     .numberedAs 3 <| .branch "formal_parameters"
      [.numberedAs 4 <| .mark "(" "", .numberedAs 5 <| .mark ")" ""] (some "parameters")] none

-- A constructor that loses its name to an annotation of the name gets a result type later.
theorem walk_not_idempotent :
    ¬ ∀ before session, before.Regular → Tidy before →
      (walk all before session).fault = none → ∀ again,
        (walk all (walk all before session).tree again).fault = none ∧
          (walk all (walk all before session).tree again).tree = (walk all before session).tree ∧
          Session.Quiet again (walk all (walk all before session).tree again).state := by
  intro claimed
  have regular : declaredName.Regular := ⟨by decide, by decide, by decide⟩
  have tidy : Tidy declaredName := by
    refine ⟨?_, by decide, by decide⟩
    unfold Trailless
    decide
  have same := (claimed declaredName (.start .empty) regular tidy (by decide +kernel)
    (.start .empty)).2.1
  exact absurd same (by decide +kernel)

end Rule

end ScriptTyping
