import ScriptTyping.Proofs.Rule.Outcome
import ScriptTyping.Proofs.Rule.Tokens

set_option autoImplicit false

namespace ScriptTyping.Rule

open ScriptTyping.Tree

def Removed (before annotation : Node) : Prop :=
  ∃ loop ∈ before.subtrees, loop.kind = Declarations.iterationKind ∧
    LoopHeaders.Removes loop annotation

def Rewritten (before after source : Node) : Prop :=
  ∃ statement ∈ before.subtrees,
    (statement.kind = "import_statement" ∨ statement.kind = "export_statement") ∧
    statement.child? "source" = some source ∧ source.kind = "string" ∧ source.isLeaf = false ∧
    ∃ now ∈ after.subtrees, now.label.origin = source.label.origin ∧
      ∃ lead quote specifier, now.children = Imports.quotedTokens lead quote specifier

structure Spared (before after : Node) (token : Label) : Prop where
  kept : ∀ annotation, Removed before annotation → token ∉ annotation.leaves
  unwritten : ∀ source, Rewritten before after source → token ∉ source.leaves

def InOrder (after : Node) (tokens : List Label) : Prop :=
  ∃ found : List Label, found.Sublist after.leaves ∧ found.map (·.origin) = tokens.map (·.origin)

structure Conserved (before after : Node) : Prop where
  once : ∀ token ∈ before.leaves, Spared before after token → ∃ now,
    after.leaves.filter (fun other => other.origin = token.origin) = [now] ∧
      now.kind = token.kind ∧ now.token = token.token ∧
      (now.lead = token.lead ∨ Released before token)
  order : ∀ tokens : List Label, tokens.Sublist before.leaves →
    (∀ token ∈ tokens, Spared before after token ∧
      ∀ pattern, Lowered before pattern → token ∉ pattern.leaves) → InOrder after tokens
  inside : ∀ pattern, Lowered before pattern → ∀ tokens : List Label,
    tokens.Sublist pattern.leaves →
    (∀ token ∈ tokens, Spared before after token ∧
      ∀ inner ∈ pattern.subtrees, inner ≠ pattern → Lowered before inner → token ∉ inner.leaves) →
    InOrder after tokens
  made : ∀ parent ∈ after.subtrees, ∀ child ∈ parent.children, child.isLeaf = true →
    Carried before child.label ∨ (child.label.origin = none ∧ Added before parent.label child.label)

variable {whole after tree handled final old : Node} {parent : Label} {above : List Label}
  {p : Nat → Bool}

theorem filter_sanitized
    (spared : ∀ annotation, Removed whole annotation → ∀ number ∈ annotation.numbers,
      p number = false)
    (member : old ∈ whole.subtrees) (inherits : Inherits old tree)
    (kind : tree.kind = Declarations.iterationKind) (declares : LoopHeaders.declares tree = true) :
    (LoopHeaders.sanitize tree).numbers.filter p = tree.numbers.filter p := by
  have loop : old.kind = Declarations.iterationKind := by
    rwa [← inherits.kind]
  have declared : LoopHeaders.declares old = true :=
    (declares_related Touched.slot Touched.kind inherits.children).symm.trans declares
  have headers := LoopHeaders.header_related Touched.slot inherits.children
  refine LoopHeaders.filter_sanitize tree declares fun annotation removes => ?_
  have read : ∃ found, LoopHeaders.Removes old found ∧ annotation.numbers = found.numbers := by
    cases removes with
    | hint _ present hint =>
        obtain ⟨found, given, touched⟩ := headers.exists_of_mem_right present
        have same := touched.same (by
          rw [isParameter, show annotation.kind = "type_annotation" by
            simpa [LoopHeaders.isTypeHint] using hint]
          decide)
        refine ⟨found, .hint declared given ?_, same.numbers⟩
        rwa [LoopHeaders.isTypeHint, ← same.kind]
    | @declared declaration declarator _ _ present kind below isDeclarator type =>
        obtain ⟨found, given, touched⟩ := headers.exists_of_mem_right present
        have same := touched.same (LoopHeaders.not_isParameter kind)
        obtain ⟨source, lower, pair⟩ := same.children.exists_of_mem_right below
        rcases child?_related SameButLead.slot pair.children "type" with
          ⟨_, none⟩ | ⟨first, second, here, there, hint⟩
        · rw [none] at type
          cases type
        · rw [type] at there
          cases there
          refine ⟨first, .declared declared given ?_ lower ?_ here, hint.numbers⟩
          · rwa [LoopHeaders.isDeclaration, ← same.kind]
          · rwa [LoopHeaders.isDeclarator, ← pair.kind]
  obtain ⟨found, removes', same⟩ := read
  rw [same]
  exact spared found ⟨old, member, loop, removes'⟩

theorem filter_signed (regular : whole.Regular)
    (together : ∀ pattern, Lowered whole pattern → (∀ number ∈ pattern.numbers, p number = false) ∨
      ∀ number, p number = true → number ∈ pattern.numbers)
    (known : Received whole parent tree) (inner : tree.isLeaf = false)
    (kind : tree.kind ∈ Functions.kinds) {started list bound result : Node}
    {children bindings : List Node} (start : Functions.withParameters? tree = some started)
    (present : started.child? "parameters" = some list)
    (annotates : Functions.Annotates (started.hasChild "body") list.children children bindings)
    (binds : Functions.withBindings? bindings (Functions.listed started list children) = some bound)
    (results : Functions.Resulted bound result) :
    result.numbers.filter p = tree.numbers.filter p := by
  obtain ⟨old, member, inherits⟩ := known.1.linked inner (site_of_function kind)
  have function : old.kind ∈ Functions.kinds := by
    rwa [← inherits.kind]
  have childless {tree : Node} {parent : Label} (sound : Sound whole parent tree) : Childless tree :=
    fun leaf => (sound.1.childless leaf).imp_right And.left
  have sound := sound_of_below known.2
  have given := sound_started regular member kind inherits start sound list (mem_of_child? present)
  have fixed (leaf : list.isLeaf = true) : children = list.children ∧ bindings = [] := by
    refine annotates_childless annotates ?_
    rcases given.1.childless leaf with empty | string
    · simp [empty]
    · exact string.2
  obtain ⟨kept, before, after⟩ := Functions.weaves_signed inner
    (fun child below => childless (sound child below)) start present fixed
    (fun child below => childless (sound_of_below given.2 child below)) annotates binds results
  have distinct : tree.numbers.Nodup :=
    (regular.nodup_numbers.sublist (regular.numbers_sublist member)).sublist (inherits.numbers inner)
  refine filter_eq_of_weaves before after distinct ?_
  by_cases hit : ∃ number ∈ bindings.flatMap numbers, p number = true
  · obtain ⟨number, moved, picked⟩ := hit
    obtain ⟨child, below, pattern, change, inside, all⟩ := Functions.mem_bindings annotates moved
    obtain ⟨found, lowers, relocated⟩ :=
      Functions.lowers_of_change inherits start present below change
    rw [relocated.numbers] at inside
    rcases together found ⟨old, member, function, lowers⟩ with none | every
    · rw [none number inside] at picked
      cases picked
    · refine .inr fun other chosen => all other ?_
      rw [relocated.numbers]
      exact every other chosen
  · refine .inl fun number moved => ?_
    by_contra picked
    exact hit ⟨number, moved, by simpa using picked⟩

theorem rewritten_of_shortened {related : List Label} {finals : List Node} {source : Node}
    {lead : String} {quote : Char} {specifier : String} (member : old ∈ whole.subtrees)
    (inherits : Inherits old tree)
    (kind : tree.kind = "import_statement" ∨ tree.kind = "export_statement")
    (present : tree.child? "source" = some source) (string : source.kind = "string")
    (inner : source.isLeaf = false)
    (pairs : List.Forall₂ (Converts related) (Children.replace "source"
      (source.withChildren (Imports.quotedTokens lead quote specifier)) tree.children) finals)
    (part : ∀ final ∈ finals, final ∈ after.subtrees) :
    ∃ found, Rewritten whole after found ∧ source.numbers = found.numbers := by
  obtain ⟨found, given, touched⟩ := inherits.child? present
  have same := touched.same (by rw [isParameter, string]; decide)
  obtain ⟨left, right, split, before, inside⟩ := (child?_eq_some_iff _ _ _).mp present
  rw [split, Children.replace, Children.modify_split _ before inside] at pairs
  obtain ⟨_, now, _, rfl, _, run, _⟩ := pairs.split_left
  have equal := unchanged_string run string fun token below => by
    rcases (by simpa [Imports.quotedTokens] using below) with rfl | rfl | rfl <;> rfl
  refine ⟨found, ⟨old, member, ?_, given, same.kind.symm.trans string,
    same.isLeaf.symm.trans inner, now, part now (by simp), ?_, lead, quote, specifier, ?_⟩,
    same.numbers⟩
  · rwa [← inherits.kind]
  · rw [equal, ← same.origin]
    rfl
  · rw [equal]
    rfl

theorem filter_of_follows (regular : whole.Regular)
    (spared : ∀ annotation, Removed whole annotation → ∀ number ∈ annotation.numbers,
      p number = false)
    (unwritten : ∀ source, Rewritten whole after source → ∀ number ∈ source.numbers,
      p number = false)
    (together : ∀ pattern, Lowered whole pattern → (∀ number ∈ pattern.numbers, p number = false) ∨
      ∀ number, p number = true → number ∈ pattern.numbers)
    (follows : Follows whole parent above tree final) :
    final ∈ after.subtrees → final.numbers.filter p = tree.numbers.filter p := by
  refine Follows.induct regular ?_ ?_ follows
  · intro parent above tree follows leaf part
    rfl
  · intro parent above tree handled finals follows inner effect pairs part
    have parts : ∀ final ∈ finals, final ∈ after.subtrees := fun final member =>
      mem_subtrees_trans (@child_mem_subtrees _ final (handled.withChildren finals) member) part
    have below := ((List.forall₂_and_left _ _).mpr ⟨parts, pairs.flip⟩).flip
    have later : (handled.withChildren finals).numbers.filter p = handled.numbers.filter p := by
      refine filter_withChildren handled (filter_related (below.imp fun child final both => ?_))
      obtain ⟨_, ih⟩ := both.2
      exact ih both.1
    rw [later]
    have inherited (site : tree.kind ∈ siteKinds) : ∃ old ∈ whole.subtrees, Inherits old tree :=
      follows.known.1.linked inner site
    cases effect with
    | annotated =>
        rw [Declarations.annotate, numbers_withChildren inner,
          numbers_insertAfterMarked (numbers_hint _ _), ← numbers_inner inner]
    | sanitized kind declares =>
        obtain ⟨old, member, inherits⟩ := inherited (site_of_iteration kind)
        exact filter_sanitized spared member inherits kind declares
    | signed kind start present annotates binds results =>
        exact filter_signed regular together follows.known inner kind start present annotates binds
          results
    | shortened kind quote quoted present string =>
        obtain ⟨old, member, inherits⟩ := inherited (site_of_import kind)
        refine Imports.filter_shortened present (fun inner number lower => ?_) _ _ _
        obtain ⟨found, rewritten, same⟩ := rewritten_of_shortened member inherits kind present string
          inner (pairs.imp fun _ _ both => both.1.run) parts
        exact unwritten found rewritten number (same ▸ lower)
    | _ => rfl

theorem token_of_follows (regular : whole.Regular)
    (follows : Follows whole parent above tree final) :
    ∀ token ∈ final.leaves, Carried whole token ∨ token.origin = none := by
  refine Follows.induct regular ?_ ?_ follows
  · intro parent above tree follows leaf token member
    obtain ⟨label, children⟩ := tree
    rw [leaves_leaf label children leaf, List.mem_singleton] at member
    subst member
    exact (follows.known.1.token leaf).imp_right And.left
  · intro parent above tree handled finals follows inner effect pairs token member
    have inner' : handled.label.isLeaf = false := by rw [effect.label]; exact inner
    rw [withChildren, leaves_branch handled.label finals inner', List.mem_flatMap] at member
    obtain ⟨final, present, below⟩ := member
    obtain ⟨child, _, _, ih⟩ := pairs.exists_of_mem_right present
    exact ih token below

theorem made_of_follows (regular : whole.Regular)
    (follows : Follows whole parent above tree final) :
    ∀ upper ∈ final.subtrees, ∀ child ∈ upper.children, child.isLeaf = true →
      Carried whole child.label ∨ (child.label.origin = none ∧ Added whole upper.label child.label) := by
  refine Follows.induct regular ?_ ?_ follows
  · intro parent above tree follows leaf upper member child below token
    exact (follows.known.2.child member below).token token
  · intro parent above tree handled finals follows inner effect pairs upper member child below leaf
    rcases (mem_subtrees_iff _ _).mp member with rfl | ⟨final, present, lower⟩
    · obtain ⟨middle, _, run, _⟩ := pairs.exists_of_mem_right below
      rcases run.cases regular with ⟨_, rfl⟩ | ⟨inner, _, _, _, rfl, _⟩
      · exact run.known.1.token leaf
      · rw [run.isLeaf, inner] at leaf
        cases leaf
    · obtain ⟨middle, _, _, ih⟩ := pairs.exists_of_mem_right present
      exact ih upper lower child below leaf

section Walk

variable {before : Node} {session : Session} (regular : before.Regular)
  (complete : (walk all before session).fault = none) {tokens : List Label}

include regular complete

theorem picked_of_walk (sub : tokens.Sublist before.leaves)
    (spared : ∀ token ∈ tokens, Spared before (walk all before session).tree token)
    (together : ∀ pattern, Lowered before pattern →
      (∀ token ∈ tokens, token ∉ pattern.leaves) ∨ ∀ token ∈ tokens, token ∈ pattern.leaves) :
    (walk all before session).tree.numbers.filter
      (fun number => number ∈ tokens.filterMap (·.origin)) = tokens.filterMap (·.origin) := by
  have absent (part : Node) (member : part ∈ before.subtrees)
      (none : ∀ token ∈ tokens, token ∉ part.leaves) :
      ∀ number ∈ part.numbers, decide (number ∈ tokens.filterMap (·.origin)) = false := by
    intro number listed
    by_contra picked
    obtain ⟨token, present, origin⟩ := List.mem_filterMap.mp (by simpa using picked)
    exact none token present
      (regular.mem_leaves_of_number member (sub.subset present) origin listed)
  rw [filter_of_follows regular ?_ ?_ ?_ (follows_of_walk regular complete) (self_mem_subtrees _)]
  · exact filter_mem_of_sublist (sub.filterMap _) regular.nodup_numbers
  · rintro lost ⟨loop, member, kind, removes⟩
    refine absent lost (mem_subtrees_trans removes.mem_subtrees member) fun token present => ?_
    exact (spared token present).kept lost ⟨loop, member, kind, removes⟩
  · rintro source ⟨statement, member, kind, present, rest⟩
    have below := mem_subtrees_trans (child_mem_subtrees (mem_of_child? present)) member
    refine absent source below fun token listed => ?_
    exact (spared token listed).unwritten source ⟨statement, member, kind, present, rest⟩
  · rintro pattern ⟨function, member, kind, lowers⟩
    rcases together pattern ⟨function, member, kind, lowers⟩ with none | every
    · exact .inl (absent pattern (mem_subtrees_trans lowers.mem_subtrees member) none)
    · refine .inr fun number picked => ?_
      obtain ⟨token, present, origin⟩ := List.mem_filterMap.mp (by simpa using picked)
      exact (mem_numbers_iff _ _).mpr ⟨token, every token present, origin⟩

theorem inOrder_of_walk (sub : tokens.Sublist before.leaves)
    (spared : ∀ token ∈ tokens, Spared before (walk all before session).tree token)
    (together : ∀ pattern, Lowered before pattern →
      (∀ token ∈ tokens, token ∉ pattern.leaves) ∨ ∀ token ∈ tokens, token ∈ pattern.leaves) :
    InOrder (walk all before session).tree tokens := by
  have picked := picked_of_walk regular complete sub spared together
  have listed : (tokens.filterMap (·.origin)).Sublist (walk all before session).tree.numbers := by
    rw [← picked]
    exact List.filter_sublist
  have origins := (listed.map some).trans (numbers_sublist_origins _)
  rw [regular.origins_of_tokens fun token member => sub.subset member] at origins
  obtain ⟨found, within, same⟩ := List.sublist_map_iff.mp origins
  exact ⟨found, within, same.symm⟩

theorem once_of_walk {token : Label} (member : token ∈ before.leaves)
    (spared : Spared before (walk all before session).tree token) :
    ∃ now, (walk all before session).tree.leaves.filter
        (fun other => other.origin = token.origin) = [now] ∧
      now.kind = token.kind ∧ now.token = token.token ∧
      (now.lead = token.lead ∨ Released before token) := by
  have picked := picked_of_walk regular complete (List.singleton_sublist.mpr member)
    (by simpa using spared) fun pattern _ => by
      by_cases inside : token ∈ pattern.leaves
      · exact .inr (by simpa using inside)
      · exact .inl (by simpa using inside)
  obtain ⟨part, lower, same, _⟩ := exists_leaf_of_mem_leaves member
  obtain ⟨number, origin⟩ := Option.isSome_iff_exists.mp (regular.numbered part lower)
  rw [same] at origin
  have single : [token].filterMap (·.origin) = [number] := by simp [origin]
  rw [single, filter_numbers] at picked
  have one := congrArg List.length picked
  rw [List.length_map, List.length_singleton, List.length_eq_one_iff] at one
  obtain ⟨now, found⟩ := one
  have listed : now ∈ (walk all before session).tree.leaves ∧ now.origin = some number := by
    have inside := List.mem_singleton_self now
    rw [← found] at inside
    simpa using inside
  refine ⟨now, by rw [origin]; exact found, ?_⟩
  rcases token_of_follows regular (follows_of_walk regular complete) now listed.1 with
    ⟨old, present, moved, lead⟩ | made
  · have equal : old = token :=
      regular.leaf_eq present member (moved.origin.symm.trans (listed.2.trans origin.symm))
    subst equal
    exact ⟨moved.kind, moved.token, lead⟩
  · simp [listed.2] at made

end Walk

/-- A completed run conserves the tokens of the tree that was read. -/
theorem walk_conserves_tokens (before : Node) (session : Session) (regular : before.Regular)
    (complete : (walk all before session).fault = none) :
    Conserved before (walk all before session).tree := by
  constructor
  case once =>
    intro token member spared
    exact once_of_walk regular complete member spared
  case order =>
    intro tokens sub each
    refine inOrder_of_walk regular complete sub (fun token member => (each token member).1) ?_
    intro pattern lowered
    exact .inl fun token member => (each token member).2 pattern lowered
  case inside =>
    rintro pattern ⟨function, member, kind, lowers⟩ tokens sub each
    have present := mem_subtrees_trans lowers.mem_subtrees member
    refine inOrder_of_walk regular complete (sub.trans (regular.leaves_sublist present))
      (fun token member => (each token member).1) ?_
    rintro other ⟨function', member', kind', lowers'⟩
    have present' := mem_subtrees_trans lowers'.mem_subtrees member'
    by_cases shared : ∃ token ∈ tokens, token ∈ other.leaves
    · obtain ⟨token, listed, below⟩ := shared
      refine .inr fun next member => ?_
      rcases regular.nested_of_token present' present below (sub.subset listed) with inner | outer
      · by_cases same : other = pattern
        · exact same ▸ sub.subset member
        · exact absurd below
            ((each token listed).2 other inner same ⟨function', member', kind', lowers'⟩)
      · exact ((regular.part present').leaves_sublist outer).subset (sub.subset member)
    · exact .inl fun token listed below => shared ⟨token, listed, below⟩
  case made => exact made_of_follows regular (follows_of_walk regular complete)

def annotatedLoop : Node :=
  .numberedAs 0 <| .branch "for_in_statement"
    [.numberedAs 1 <| .mark "for" "",
     .numberedAs 2 <| .leaf "const" "const" " " (some "kind"),
     .numberedAs 3 <| .leaf "identifier" "a" " " (some "left"),
     .numberedAs 4 <| .branch "type_annotation"
      [.numberedAs 5 <| .mark ":" "",
       .numberedAs 6 <| .leaf "predefined_type" "string" " " none] none,
     .numberedAs 7 <| .leaf "of" "of" " " (some "operator"),
     .numberedAs 8 <| .leaf "identifier" "b" " " (some "right"),
     .numberedAs 9 <| .branch "arrow_function"
      [.numberedAs 10 <| .branch "array_pattern"
        [.numberedAs 11 <| .mark "[" "\n",
         .numberedAs 12 <| .leaf "identifier" "c" "" none,
         .numberedAs 13 <| .mark "]" ""] (some "parameter"),
       .numberedAs 14 <| .mark "=>" " ",
       .numberedAs 15 <| .leaf "identifier" "c" " " (some "body")] (some "body")] none

theorem annotatedLoop_conserved :
    annotatedLoop.Regular ∧ (walk all annotatedLoop (.start .empty)).fault = none ∧
      Conserved annotatedLoop (walk all annotatedLoop (.start .empty)).tree := by
  have regular : annotatedLoop.Regular := ⟨by decide, by decide, by decide⟩
  have complete : (walk all annotatedLoop (.start .empty)).fault = none := by decide +kernel
  exact ⟨regular, complete, walk_conserves_tokens _ _ regular complete⟩

end ScriptTyping.Rule
