import Mathlib.Data.List.Induction
import ScriptTyping.Conversion
import ScriptTyping.Proofs.Parse.Numbering
import ScriptTyping.Proofs.Text.Lines

set_option autoImplicit false

namespace ScriptTyping

open ScriptTyping.Tree

def Marked (tree : ParseTree) : Prop :=
  ∀ part ∈ tree.subtrees, part.label.hasError = true ↔
    ∃ lower ∈ part.subtrees, lower.label.isDamaged = true

theorem Marked.child {label : ParseLabel} {children : List ParseTree}
    (marked : Marked (.node label children)) {child : ParseTree} (member : child ∈ children) :
    Marked child :=
  fun part below => marked part (mem_subtrees_of_child member below)

theorem labels_preorder (tree : ParseTree) :
    tree.preorder.map (·.1) = tree.subtrees.map Tree.label := by
  have labels := labels_forest tree.preorder
  rw [forest, foldr_gather_preorder, List.flatMap_singleton] at labels
  exact labels.symm

theorem firstDamagedOf_eq (pending : List ParseTree) (marked : ∀ tree ∈ pending, Marked tree) :
    firstDamagedOf pending =
      ((pending.flatMap subtrees).map Tree.label).find? ParseLabel.isDamaged := by
  fun_induction firstDamagedOf pending with
  | case1 => rfl
  | case2 label children rest damaged => simp [subtrees_node, damaged]
  | case3 label children rest sound below ih =>
      have whole := marked _ List.mem_cons_self
      rw [ih fun tree member => ?_]
      · simp [subtrees_node, sound]
      · rcases List.mem_append.mp member with child | later
        · exact whole.child child
        · exact marked tree (List.mem_cons_of_mem _ later)
  | case4 label children rest sound unmarked ih =>
      have sound : ∀ part ∈ (Tree.node label children).subtrees, ¬ part.label.isDamaged = true :=
        fun part below damaged => unmarked
          ((marked _ List.mem_cons_self _ (self_mem_subtrees _)).mpr ⟨part, below, damaged⟩)
      have skipped : (((Tree.node label children).subtrees).map Tree.label).find?
          ParseLabel.isDamaged = none := by
        simpa using sound
      rw [ih fun tree member => marked tree (List.mem_cons_of_mem _ member), List.flatMap_cons,
        List.map_append, List.find?_append, skipped, Option.none_or]

def FirstDamaged (tree : ParseTree) (found : ParseLabel) : Prop :=
  found.isDamaged = true ∧ ∃ before after, tree.preorder.map (·.1) = before ++ found :: after ∧
    ∀ earlier ∈ before, earlier.isDamaged = false

theorem firstDamaged_culprit {tree : ParseTree} (marked : Marked tree)
    (damaged : tree.label.hasError = true) : FirstDamaged tree (culprit tree) := by
  obtain ⟨part, below, broken⟩ := (marked tree (self_mem_subtrees tree)).mp damaged
  have search := firstDamagedOf_eq [tree] fun other member => by
    rwa [List.mem_singleton.mp member]
  rw [List.flatMap_singleton, ← labels_preorder] at search
  cases found : firstDamagedOf [tree] with
  | none =>
      rw [found, eq_comm, List.find?_eq_none, labels_preorder] at search
      exact absurd broken (search _ (List.mem_map_of_mem below))
  | some label =>
      rw [found, eq_comm, List.find?_eq_some_iff_append] at search
      obtain ⟨damaged, before, after, split, earlier⟩ := search
      rw [culprit, found]
      exact ⟨damaged, before, after, split, by simpa using earlier⟩

-- The place behind these bytes: the line feeds are counted, and what stands behind the last of them.
def placeBehind (bytes : List UInt8) : Position :=
  ⟨bytes.count 10 + 1, (bytes.reverse.takeWhile (· ≠ 10)).length + 1⟩

theorem placeBehind_concat (bytes : List UInt8) (byte : UInt8) :
    placeBehind (bytes ++ [byte]) = (placeBehind bytes).step byte := by
  by_cases feed : byte = 10
  · simp [placeBehind, Position.step, feed]
  · simp [placeBehind, Position.step, feed]

theorem positionAt_eq (source : ByteArray) (offset : Nat) :
    positionAt source offset = placeBehind (source.extract 0 offset).toList := by
  rw [positionAt]
  induction (source.extract 0 offset).toList using List.reverseRecOn with
  | nil => rfl
  | append_singleton bytes byte ih =>
      rw [List.foldl_append, ih, placeBehind_concat, List.foldl_cons, List.foldl_nil]

-- The text of a node; what is no text shows as replacement characters.
def ParseLabel.shown (source : ByteArray) (label : ParseLabel) : List Char :=
  (Utf8.decodeLenient (source.extract label.start label.stop)).toList

inductive Describes (source : ByteArray) (label : ParseLabel) : Problem → Prop where
  | missing (absent : label.isMissing = true) : Describes source label (.missing label.kind)
  | near {line : List Char} {others : List (List Char)} (present : label.isMissing = false)
      (visible : ∃ c ∈ label.shown source, isBlank c = false)
      (first : lines (stripBlank (label.shown source)) = line :: others)
      (nonempty : line.take snippetLength ≠ []) :
      Describes source label (.unexpectedNear (String.ofList (line.take snippetLength)))
  | blank (present : label.isMissing = false) (blank : ∀ c ∈ label.shown source, isBlank c = true) :
      Describes source label .unexpected

theorem describes_problemAt (source : ByteArray) (label : ParseLabel) :
    Describes source label (problemAt source label) := by
  rw [problemAt]
  split
  next absent => exact .missing absent
  next present =>
    have here : label.isMissing = false := by simpa using present
    have shown : snippet source label =
        String.ofList ((firstLine (stripBlank (label.shown source))).take snippetLength) := rfl
    by_cases blank : ∀ c ∈ label.shown source, isBlank c = true
    · rw [shown, (firstLine_stripBlank _).mpr blank]
      exact .blank here blank
    · have some : stripBlank (label.shown source) ≠ [] := fun none =>
        blank ((stripBlank_eq_nil_iff _).mp none)
      have nonempty : (firstLine (stripBlank (label.shown source))).take snippetLength ≠ [] := by
        simpa [snippetLength] using mt (firstLine_stripBlank _).mp blank
      obtain ⟨others, first⟩ := List.head?_eq_some_iff.mp (head?_lines some)
      have visible : ∃ c ∈ label.shown source, isBlank c = false := by
        simpa using blank
      rw [shown, if_neg (by simpa using nonempty)]
      exact .near here visible first nonempty

structure Announces (source : ByteArray) (label : ParseLabel) (message : String) : Prop where
  missing : "Missing ".toList <+: message.toList ↔ label.isMissing = true
  near : "Unexpected syntax near ".toList <+: message.toList ↔
    label.isMissing = false ∧ ∃ c ∈ label.shown source, isBlank c = false

theorem message_begins (failure : ParseFailure) :
    ∃ rest, failure.message = failure.problem.message ++ (" (" ++ rest) :=
  ⟨_, by simp only [ParseFailure.message, located, String.append_assoc]; rfl⟩

theorem announces_missing {source : ByteArray} {label : ParseLabel} (absent : label.isMissing = true)
    (kind rest : String) : Announces source label ("Missing " ++ kind ++ rest) := by
  refine ⟨⟨fun _ => absent, fun _ => ?_⟩, by simp [absent]⟩
  simp only [String.append_assoc, String.toList_append]
  exact List.prefix_append _ _

theorem announces_near {source : ByteArray} {label : ParseLabel} (present : label.isMissing = false)
    (visible : ∃ c ∈ label.shown source, isBlank c = false) (line rest : String) :
    Announces source label ("Unexpected syntax near " ++ line ++ rest) := by
  refine ⟨by simp [present], fun _ => ⟨present, visible⟩, fun _ => ?_⟩
  simp only [String.append_assoc, String.toList_append]
  exact List.prefix_append _ _

theorem announces_blank {source : ByteArray} {label : ParseLabel} (present : label.isMissing = false)
    (blank : ∀ c ∈ label.shown source, isBlank c = true) (rest : String) :
    Announces source label ("Unexpected syntax" ++ (" (" ++ rest)) := by
  refine ⟨by simp [present], fun near => ?_, fun ⟨_, c, member, visible⟩ => ?_⟩
  · simp at near
  · exact absurd (blank c member) (by simp [visible])

theorem announces_message {source : ByteArray} {label : ParseLabel} {failure : ParseFailure}
    (describes : Describes source label failure.problem) :
    Announces source label failure.message := by
  obtain ⟨rest, begins⟩ := message_begins failure
  rw [begins]
  generalize failure.problem = problem at describes ⊢
  cases describes with
  | missing absent => exact announces_missing absent _ _
  | near present visible _ _ => exact announces_near present visible _ _
  | blank present blank => exact announces_blank present blank rest

namespace Conversion

def unread (source error : String) : Conversion :=
  { code := source, errors := [error], success := false, hasMarkup := false
    trace := ⟨#[⟨1, none, .phaseStart "Conversion Pipeline" "JavaScript -> TypeScript"⟩,
      ⟨2, some 1, .phaseStart "Parsing" "Source Text -> Syntax Tree"⟩, ⟨3, some 2, .error error⟩,
      ⟨4, some 2, .phaseEnd "Parsing"⟩, ⟨5, some 1, .phaseEnd "Conversion Pipeline"⟩], []⟩ }

theorem run_of_malformed {source : String} {tree : ParseTree} {failure : ParseFailure}
    (read : readParse source tree = .error (.malformed failure)) :
    run source tree = .ok (unread source ("Parse Error: " ++ failure.message)) := by
  rw [run, read]
  rfl

/-- A damaged parse is reported at its first damaged node, and the conversion ends with this report and the
source as it was. -/
theorem run_reports_damage (source : String) (tree : ParseTree) (marked : Marked tree)
    (damaged : tree.label.hasError = true) :
    ∃ found failure, FirstDamaged tree found ∧
      readParse source tree = .error (.malformed failure) ∧
      failure.position = placeBehind (source.toUTF8.extract 0 found.start).toList ∧
      Describes source.toUTF8 found failure.problem ∧
      Announces source.toUTF8 found failure.message ∧
      run source tree = .ok (unread source ("Parse Error: " ++ failure.message)) := by
  have read : readParse source tree = .error (.malformed (describeDamage source.toUTF8 tree)) := by
    simp [readParse, damaged]
  have describes := describes_problemAt source.toUTF8 (culprit tree)
  exact ⟨culprit tree, _, firstDamaged_culprit marked damaged, read, positionAt_eq _ _, describes,
    announces_message describes, run_of_malformed read⟩

private def misplacedBracket : ParseTree :=
  .node ⟨"program", 0, 5, none, false, false, true⟩ [
    .node ⟨"expression_statement", 0, 2, none, false, false, false⟩ [
      .node ⟨"identifier", 0, 1, none, false, false, false⟩ [],
      .node ⟨";", 1, 2, none, false, false, false⟩ []],
    .node ⟨"ERROR", 4, 5, none, true, false, true⟩ [
      .node ⟨")", 4, 5, none, false, false, false⟩ []]]

theorem run_reports_misplacedBracket :
    Marked misplacedBracket ∧ misplacedBracket.label.hasError = true ∧
      ∃ failure : ParseFailure, failure.position = ⟨2, 2⟩ ∧ failure.problem = .unexpectedNear ")" ∧
        run "a;\n )" misplacedBracket =
          .ok (unread "a;\n )" ("Parse Error: " ++ failure.message)) := by
  have marked : Marked misplacedBracket := by
    unfold Marked
    decide +kernel
  refine ⟨marked, rfl, ?_⟩
  obtain ⟨_, failure, _, read, _, _, _, outcome⟩ :=
    run_reports_damage "a;\n )" misplacedBracket marked rfl
  have found : describeDamage "a;\n )".toUTF8 misplacedBracket = failure := by
    simpa [readParse, misplacedBracket] using read
  subst found
  exact ⟨_, by decide +kernel, by decide +kernel, outcome⟩

end Conversion

end ScriptTyping
