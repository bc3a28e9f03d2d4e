import ScriptTyping.Proofs.Rule.Stable

set_option autoImplicit false

namespace ScriptTyping

open ScriptTyping.Tree

namespace Imports

def statementKinds : List String := ["import_statement", "export_statement"]

theorem mem_statementKinds {kind : String} :
    kind ∈ statementKinds ↔ kind = "import_statement" ∨ kind = "export_statement" := by
  simp [statementKinds]

end Imports

namespace Rule

-- What is required of a child under its parent's label, if it is the block of a function or the
-- source of an import.
structure Formed (blocks strings : Node → Prop) (parent : Label) (child : Node) : Prop where
  block : parent.kind ∈ Functions.kinds → child.slot = some "body" →
    child.kind = Bindings.blockKind → blocks child
  string : parent.kind ∈ Imports.statementKinds → child.slot = some "source" →
    child.kind = "string" → strings child

-- The requirements do not depend on leads, and what the rules make of a block or a string meets
-- them.
structure Lasting (blocks strings : Node → Prop) : Prop where
  block_lead : ∀ {block} (lead : String), blocks block → blocks (block.withTrivia lead)
  string_lead : ∀ {string} (lead : String), strings string → strings (string.withTrivia lead)
  opened : ∀ {block : Node}, (∃ brace ∈ block.children, brace.kind = "\x7b") → blocks block
  quoted : ∀ {string} (quote : Char) (specifier : String), strings string →
    strings (string.withChildren (Imports.quotedTokens string.trivia quote specifier))

variable {blocks strings : Node → Prop} {parent : Label} {tree child : Node}

namespace Formed

theorem elsewhere (function : parent.kind ∉ Functions.kinds)
    (imported : parent.kind ∉ Imports.statementKinds) : Formed blocks strings parent child :=
  ⟨fun kind => absurd kind function, fun kind => absurd kind imported⟩

theorem of_kind (block : child.kind ≠ Bindings.blockKind) (string : child.kind ≠ "string") :
    Formed blocks strings parent child :=
  ⟨fun _ _ kind => absurd kind block, fun _ _ kind => absurd kind string⟩

theorem of_parameter (kind : child.kind ∈ Functions.parameterKinds) :
    Formed blocks strings parent child := by
  refine of_kind ?_ ?_ <;>
  · intro same
    rw [same] at kind
    exact absurd kind (by decide)

theorem relabel (formed : Formed blocks strings parent child) {other : Label}
    (kind : other.kind = parent.kind) : Formed blocks strings other child where
  block function := formed.block (kind ▸ function)
  string imported := formed.string (kind ▸ imported)

theorem withTrivia (lasting : Lasting blocks strings) (formed : Formed blocks strings parent child)
    (lead : String) : Formed blocks strings parent (child.withTrivia lead) where
  block function inside block := by
    rw [slot_withTrivia] at inside
    rw [kind_withTrivia] at block
    exact lasting.block_lead lead (formed.block function inside block)
  string imported inside string := by
    rw [slot_withTrivia] at inside
    rw [kind_withTrivia] at string
    exact lasting.string_lead lead (formed.string imported inside string)

end Formed

abbrev WellFormed (blocks strings : Node → Prop) (parent : Label) (tree : Node) : Prop :=
  Formed blocks strings parent tree ∧ Below (Formed blocks strings) tree

theorem below_elsewhere (function : tree.kind ∉ Functions.kinds)
    (imported : tree.kind ∉ Imports.statementKinds)
    (each : ∀ child ∈ tree.children, Below (Formed blocks strings) child) :
    Below (Formed blocks strings) tree := by
  rw [below_iff]
  exact fun child member => ⟨.elsewhere function imported, each child member⟩

theorem stable_below (lasting : Lasting blocks strings) :
    Stable (Below (Formed blocks strings)) where
  child below member := ((below_iff _).mp below _ member).2
  childless label := (below_iff _).mpr fun _ member => absurd member List.not_mem_nil
  built {tree} kind each := by
    have apart : ∀ kind ∈ builtKinds, kind ∉ Functions.kinds ∧ kind ∉ Imports.statementKinds := by
      decide
    exact below_elsewhere (apart _ kind).1 (apart _ kind).2 each
  relabeled kind below := below.relabel fun _ formed => formed.relabel kind
  relead {tree} lead below := by
    have anywhere : ∀ first ∈ tree.leaves.head?, (fun _ : Label => True) first := by simp
    refine below.withTrivia ?_ ?_ anywhere
    · exact fun lead formed => formed.relabel rfl
    · exact fun formed _ => formed.withTrivia lasting lead
  bare kind _ each := below_elsewhere (by rw [kind]; decide) (by rw [kind]; decide) each
  stripped {tree} below := by
    unfold LoopHeaders.stripDeclarator
    split
    · rw [below_iff] at below ⊢
      exact fun other left => below other (List.mem_of_mem_eraseP left)
    · exact below
  annotated {_ list _ _} annotates below each := by
    rw [below_iff] at below ⊢
    intro child member
    refine ⟨?_, each child member⟩
    rcases Functions.mem_annotates annotates member with kept | kind
    · exact (below child kept).1
    · exact .of_parameter kind

theorem formed_started {started : Node} (start : Functions.withParameters? tree = some started)
    (each : ∀ child ∈ tree.children, Formed blocks strings parent child) :
    ∀ child ∈ started.children, Formed blocks strings parent child := by
  rcases Functions.withParameters?_cases start with
    ⟨_, rfl⟩ | ⟨_, bare, left, right, _, split, rfl⟩
  · exact each
  · intro child member
    rcases (by simpa using member : child ∈ left ∨ child = Functions.parenthesized bare ∨
      child ∈ right) with early | rfl | late
    · exact each child (by simp [split, early])
    · exact .of_kind (show "formal_parameters" ≠ "statement_block" by decide)
        (show "formal_parameters" ≠ "string" by decide)
    · exact each child (by simp [split, late])

theorem formed_prepended (lasting : Lasting blocks strings) {body block : Node}
    {statements : List Node}
    (prepended : Bindings.prepend? (Bindings.asBlock body) statements = some block) :
    Formed blocks strings parent block := by
  obtain ⟨left, brace, rest, _, opening, _, rfl⟩ := Bindings.prepend?_cases prepended
  refine ⟨fun _ _ _ => lasting.opened ⟨brace, by simp, opening⟩, fun _ _ string => ?_⟩
  rw [kind_withChildren, Functions.kind_asBlock] at string
  exact absurd string (by decide)

theorem formed_signed (lasting : Lasting blocks strings) {started list bound result : Node}
    {children bindings : List Node} (kind : parent.kind ∈ Functions.kinds)
    (start : Functions.withParameters? tree = some started)
    (present : started.child? "parameters" = some list)
    (binds : Functions.withBindings? bindings (Functions.listed started list children) = some bound)
    (results : Functions.Resulted bound result)
    (each : ∀ child ∈ tree.children, Formed blocks strings parent child) :
    ∀ child ∈ result.children, Formed blocks strings parent child := by
  intro child member
  rcases Functions.mem_signed start present binds results member with
    kept | rfl | ⟨_, body, _, prepended⟩ | rfl
  · exact formed_started start each child kept
  · have slot := slot_of_child? present
    refine ⟨fun _ inside => ?_, fun imported => ?_⟩
    · rw [slot_withChildren, slot] at inside
      exact absurd inside (by decide)
    · simp only [Imports.statementKinds, List.mem_cons, List.not_mem_nil, or_false] at imported
      rcases imported with same | same <;> rw [same] at kind <;> exact absurd kind (by decide)
  · exact formed_prepended lasting prepended
  · exact .of_kind (show "type_annotation" ≠ "statement_block" by decide)
      (show "type_annotation" ≠ "string" by decide)

theorem formed_of_effect (lasting : Lasting blocks strings) {above : List Label} {handled : Node}
    (effect : Effect above tree handled)
    (each : ∀ child ∈ tree.children, Formed blocks strings tree.label child) :
    ∀ child ∈ handled.children, Formed blocks strings tree.label child := by
  cases effect with
  | untouched | declared | iterated | unlisted | imported => exact each
  | annotated kind | sanitized kind =>
      have function : tree.label.kind ∉ Functions.kinds := by
        rw [show tree.label.kind = _ from kind]
        decide
      have imported : tree.label.kind ∉ Imports.statementKinds := by
        rw [show tree.label.kind = _ from kind]
        decide
      exact fun child _ => .elsewhere function imported
  | signed kind start list annotates binds results =>
      exact formed_signed lasting kind start list binds results each
  | @shortened kind source quote quoted present string text shorter =>
      intro child member
      rcases Children.mem_modify member with kept | ⟨old, given, inside, rfl⟩
      · exact each child kept
      · have imported : tree.label.kind ∈ Imports.statementKinds :=
          Imports.mem_statementKinds.mpr kind
        have formed := each source (mem_of_child? present)
        have before := formed.string imported (slot_of_child? present) string
        refine ⟨fun _ _ block => ?_, fun _ _ _ => lasting.quoted quote _ before⟩
        rw [kind_withChildren, string] at block
        exact absurd block (by decide)

theorem below_of_effect (lasting : Lasting blocks strings) {above : List Label} {handled : Node}
    (effect : Effect above tree handled) (below : Below (Formed blocks strings) tree) :
    Below (Formed blocks strings) handled := by
  have formed := formed_of_effect lasting effect fun child member =>
    ((below_iff _).mp below child member).1
  have children : ∀ child ∈ handled.children, WellFormed blocks strings tree.label child :=
    fun child member =>
      ⟨formed child member, (stable_below lasting).of_effect effect below child member⟩
  rwa [below_iff, effect.label]

end Rule

end ScriptTyping
