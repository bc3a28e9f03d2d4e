import ScriptTyping.Proofs.Rule.Idempotence
import ScriptTyping.Proofs.Walk.Calls

set_option autoImplicit false

namespace ScriptTyping

open ScriptTyping.Tree

theorem beforeEnding?_eq_some {ending chars shorter : List Char} :
    beforeEnding? ending chars = some shorter ↔ chars = shorter ++ ending := by
  unfold beforeEnding?
  constructor
  · intro found
    split at found
    next ends =>
      obtain ⟨rest, rfl⟩ := List.isSuffixOf_iff_suffix.mp ends
      rw [← Option.some.inj found]
      simp
    next => cases found
  · rintro rfl
    simp [List.isSuffixOf_iff_suffix]

theorem normalizeSpecifier_append (shorter : String) {extension : String}
    (member : extension ∈ sourceExtensions) : normalizeSpecifier (shorter ++ extension) = shorter := by
  have alone : ∀ first ∈ sourceExtensions, ∀ second ∈ sourceExtensions,
      first.toList <:+ second.toList → first = second := by decide
  rw [normalizeSpecifier]
  cases found : sourceExtensions.findSome? fun other =>
      beforeEnding? other.toList (shorter ++ extension).toList with
  | none =>
      have missing := List.findSome?_eq_none_iff.mp found extension member
      rw [beforeEnding?_eq_some.mpr String.toList_append] at missing
      cases missing
  | some left =>
      obtain ⟨other, among, ends⟩ := List.exists_of_findSome?_eq_some found
      have split := beforeEnding?_eq_some.mp ends
      rw [String.toList_append] at split
      have same : other = extension := by
        have own : extension.toList <:+ left ++ other.toList := split ▸ List.suffix_append ..
        rcases List.suffix_or_suffix_of_suffix own (List.suffix_append ..) with within | within
        · exact (alone extension member other among within).symm
        · exact alone other among extension member within
      subst same
      simp only [← List.append_cancel_right split, String.ofList_toList]

theorem normalizeSpecifier_other {specifier : String}
    (plain : ∀ shorter, ∀ extension ∈ sourceExtensions, specifier ≠ shorter ++ extension) :
    normalizeSpecifier specifier = specifier := by
  refine Rule.normalizeSpecifier_plain fun extension member ends => ?_
  obtain ⟨shorter, split⟩ := ends
  refine plain (String.ofList shorter) extension member (String.toList_injective ?_)
  simp [← split]

namespace Imports

variable {tree source : Node} {session : Session} {above : List Label}

def quoted (quote : Char) (specifier : String) : String :=
  quote.toString ++ specifier ++ quote.toString

def entryFor (quote : Char) (specifier : String) : Entry :=
  if normalizeSpecifier specifier = specifier then
    .decision (quoted quote specifier) "kept" "no recognized extension"
  else .specifier (quoted quote specifier) (quoted quote (normalizeSpecifier specifier))

theorem handle_quoted (above : List Label) (session : Session)
    (present : tree.child? "source" = some source) (string : source.kind = "string")
    (inner : source.isLeaf = false) (trail : source.label.trail = "") {quote : Char}
    {specifier : String} (prints : source.text = source.trivia ++ quoted quote specifier) :
    ∃ left right changed, tree.children = left ++ source :: right ∧
      (∀ child ∈ left, Children.inSlot "source" child = false) ∧
      handle above tree session =
        ⟨tree.withChildren (left ++ changed :: right), session.record (entryFor quote specifier),
          none⟩ ∧
      changed.label = source.label ∧ changed.trivia = source.trivia ∧
      changed.text = source.trivia ++ quoted quote (normalizeSpecifier specifier) := by
  obtain ⟨left, right, split, before, slot⟩ := (child?_eq_some_iff ..).mp present
  have chars : source.sourceText.toList = quote :: (specifier.toList ++ [quote]) := by
    rw [toList_sourceText, prints, ← String.length_toList]
    simp [quoted, List.drop_left']
  have text : source.sourceText = quoted quote specifier := by
    apply String.toList_injective
    simp [chars, quoted]
  simp only [handle, present, string, bne_self_eq_false, Bool.false_eq_true, if_false, chars,
    List.dropLast_concat, String.ofList_toList]
  by_cases kept : normalizeSpecifier specifier = specifier
  · refine ⟨left, right, source, split, before, ?_, rfl, rfl, by rw [kept, prints]⟩
    simp only [entryFor, kept, if_true, text]
    rw [← split, withChildren_children]
  · generalize shorter : normalizeSpecifier specifier = normalized at *
    have changed := Rule.text_quotedTokens inner trail source.trivia quote normalized
    have printed : (source.withChildren (quotedTokens source.trivia quote normalized)).sourceText =
        quoted quote normalized := by
      apply String.toList_injective
      rw [Rule.sourceText_quotedTokens inner trail]
      simp [quoted]
    refine ⟨left, right, source.withChildren (quotedTokens source.trivia quote normalized), split,
      before, ?_, rfl, Rule.trivia_quotedTokens inner _ _ _, ?_⟩
    · simp only [kept, if_false, entryFor, shorter, text, printed]
      rw [split, Children.replace, Children.modify_split _ before slot]
    · rw [changed]
      simp only [quoted, String.append_assoc]

theorem handle_unnamed (above : List Label) (session : Session)
    (other : ∀ source, tree.child? "source" = some source → source.kind ≠ "string") :
    handle above tree session = ⟨tree, session, none⟩ := by
  unfold handle
  split
  next => rfl
  next source present => rw [if_pos (by simpa using other source present)]

inductive Local (tree : Node) : Node → Prop where
  | same : Local tree tree
  | renamed {left right : List Node} {source : Node} (inner : List Node)
      (split : tree.children = left ++ source :: right) (slot : source.slot = some "source")
      (string : source.kind = "string") :
      Local tree (tree.withChildren (left ++ source.withChildren inner :: right))

theorem local_handle (above : List Label) (tree : Node) (session : Session) :
    Local tree (handle above tree session).tree := by
  unfold handle
  split
  next => exact .same
  next source present =>
    split
    next => exact .same
    next string =>
      obtain ⟨left, right, split, before, slot⟩ := (child?_eq_some_iff ..).mp present
      dsimp only
      split
      next => exact .same
      next =>
        split
        next => exact .same
        next =>
          rw [split, Children.replace, Children.modify_split _ before slot]
          exact .renamed _ split ((Children.inSlot_iff ..).mp slot) (by simpa using string)

theorem getElem?_tableFrom (number place : Nat) (rules : List Rule) :
    (Rule.tableFrom number rules)[place]? = rules[place]?.map (Rule.handler (number + place)) := by
  induction rules generalizing number place with
  | nil => simp [Rule.tableFrom]
  | cons rule rest ih =>
      cases place with
      | zero => rfl
      | succ place =>
          rw [Rule.tableFrom, List.getElem?_cons_succ, List.getElem?_cons_succ, ih]
          congr 2
          omega

theorem keepsKinds_table (rules : List Rule) : (Rule.table rules).KeepsKinds := by
  intro handler member above tree session handles unfaulted
  obtain ⟨rule, number, rfl⟩ := Rule.mem_tableFrom member
  generalize called : (rule.handler number).handle above tree session = outcome at unfaulted ⊢
  obtain ⟨changed, after, fault⟩ := outcome
  obtain rfl : fault = none := unfaulted
  exact congrArg Label.kind (Rule.effect_of_handler (List.contains_iff_mem.mp handles) called).label

theorem called_at_statements (rules : List Rule) (steps : Nat) (tree : Node) (session : Session) :
    ∀ call ∈ ((Rule.table rules).logged.walk steps tree (session, [])).state.2,
      rules[call.place]? = some .imports → call.tree.kind ∈ handler.kinds := by
  intro call member imports
  obtain ⟨found, present, handles⟩ :=
    fits_walkFrom (keepsKinds_table rules) steps _ _ _ (by simp) call member
  rw [Rule.table, getElem?_tableFrom, imports] at present
  obtain rfl := Option.some.inj present
  exact List.contains_iff_mem.mp handles

/-- A specifier loses exactly one ending. At a statement, the string that names the source prints the
shorter specifier and nothing else is changed; in a walk with any rules, nothing but statements is. -/
theorem normalizes_sources :
    (∀ specifier,
      (∀ shorter, ∀ extension ∈ sourceExtensions, specifier = shorter ++ extension →
        normalizeSpecifier specifier = shorter) ∧
      ((∀ shorter, ∀ extension ∈ sourceExtensions, specifier ≠ shorter ++ extension) →
        normalizeSpecifier specifier = specifier)) ∧
    (∀ above tree session source quote specifier, tree.child? "source" = some source →
      source.kind = "string" → source.isLeaf = false → source.label.trail = "" →
      source.text = source.trivia ++ quoted quote specifier →
      ∃ left right changed, tree.children = left ++ source :: right ∧
        (∀ child ∈ left, Children.inSlot "source" child = false) ∧
        handle above tree session =
          ⟨tree.withChildren (left ++ changed :: right),
            session.record (entryFor quote specifier), none⟩ ∧
        changed.label = source.label ∧ changed.trivia = source.trivia ∧
        changed.text = source.trivia ++ quoted quote (normalizeSpecifier specifier)) ∧
    (∀ above tree session, (∀ source, tree.child? "source" = some source → source.kind ≠ "string") →
      handle above tree session = ⟨tree, session, none⟩) ∧
    ∀ rules steps tree session,
      (Rule.table rules).walk steps tree session =
        ((Rule.table rules).logged.walk steps tree (session, [])).unlogged ∧
      ∀ call ∈ ((Rule.table rules).logged.walk steps tree (session, [])).state.2,
        rules[call.place]? = some .imports →
          call.tree.kind ∈ ["import_statement", "export_statement"] ∧
          Local call.tree (handle call.above call.tree call.state).tree := by
  refine ⟨fun specifier => ⟨?_, normalizeSpecifier_other⟩, ?_,
    fun above tree session other => handle_unnamed above session other, ?_⟩
  · rintro shorter extension member rfl
    exact normalizeSpecifier_append shorter member
  · intro above tree session source quote specifier present string inner trail prints
    exact handle_quoted above session present string inner trail prints
  · intro rules steps tree session
    refine ⟨unlogged_walkFrom _ steps _ _ session [], fun call member imports => ⟨?_, ?_⟩⟩
    · exact called_at_statements rules steps tree session call member imports
    · exact local_handle call.above call.tree call.state

def testedSource : Node :=
  .branch "string"
    [.mark "'" " ", .leaf "string_fragment" "./a.test.js" "" none, .mark "'" ""] (some "source")

def testedImport : Node := .branch "import_statement" [.mark "import" "", testedSource] none

theorem testedImport_shortened :
    normalizeSpecifier "./a.test.js" = "./a.test" ∧
      ∃ left right changed, testedImport.children = left ++ testedSource :: right ∧
        handle [] testedImport (.start .empty) =
          ⟨testedImport.withChildren (left ++ changed :: right),
            Session.record (.start .empty) (.specifier "'./a.test.js'" "'./a.test'"), none⟩ ∧
        changed.text = " './a.test'" := by
  obtain ⟨ending, statement, -, -⟩ := normalizes_sources
  have shorter := (ending "./a.test.js").1 "./a.test" ".js" (by decide) rfl
  obtain ⟨left, right, changed, split, -, handled, -, -, text⟩ :=
    statement [] testedImport (.start .empty) testedSource '\'' "./a.test.js" rfl rfl rfl rfl
      (by decide +kernel)
  have entry : entryFor '\'' "./a.test.js" = .specifier "'./a.test.js'" "'./a.test'" := by
    rw [entryFor, shorter, if_neg (by decide)]
    rfl
  refine ⟨shorter, left, right, changed, split, by rw [handled, entry], ?_⟩
  rw [text, shorter]
  decide +kernel

end Imports

end ScriptTyping
