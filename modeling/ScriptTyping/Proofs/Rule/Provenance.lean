import ScriptTyping.Proofs.Node.Regular
import ScriptTyping.Proofs.Rule.Effect
import ScriptTyping.Proofs.Rule.Inheritance

set_option autoImplicit false

namespace ScriptTyping

open ScriptTyping.Tree

namespace Functions

inductive Lowers (function : Node) : Node → Prop where
  | listed {list parameter pattern : Node} (body : function.hasChild "body" = true)
      (parameters : function.child? "parameters" = some list) (member : parameter ∈ list.children)
      (kind : parameter.kind ∈ parameterKinds)
      (present : parameter.child? "pattern" = some pattern)
      (untyped : parameter.hasChild "type" = false) (structural : pattern.kind ∈ structuralKinds) :
      Lowers function pattern
  | bare {pattern : Node} (body : function.hasChild "body" = true)
      (unlisted : function.hasChild "parameters" = false)
      (present : function.child? "parameter" = some pattern)
      (structural : pattern.kind ∈ structuralKinds) : Lowers function pattern

inductive Releads (function : Node) (token : Label) : Prop where
  | lowered {pattern : Node} (lowers : Lowers function pattern)
      (first : token ∈ pattern.leaves.head?)
  | parenthesized {bare : Node} (unlisted : function.hasChild "parameters" = false)
      (present : function.child? "parameter" = some bare) (first : token ∈ bare.leaves.head?)
  | wrapped {pattern body : Node} (lowers : Lowers function pattern)
      (present : function.child? "body" = some body) (expression : body.kind ≠ Bindings.blockKind)
      (first : token ∈ body.leaves.head?)
  | setOff {pattern body brace close : Node} {left rest : List Node}
      (lowers : Lowers function pattern) (present : function.child? "body" = some body)
      (block : body.kind = Bindings.blockKind)
      (split : body.children = left ++ brace :: close :: rest)
      (before : ∀ child ∈ left, child.kind ≠ "\x7b") (opening : brace.kind = "\x7b")
      (closing : close.kind = "\x7d") (lead : close.label.lead = "") (leaf : close.isLeaf = true)
      (same : close.label = token)

theorem Lowers.mem_subtrees {function pattern : Node} (lowers : Lowers function pattern) :
    pattern ∈ function.subtrees := by
  cases lowers with
  | listed body parameters member kind present untyped structural =>
      have inner := mem_subtrees_of_child member (child_mem_subtrees (mem_of_child? present))
      exact mem_subtrees_of_child (mem_of_child? parameters) inner
  | bare body unlisted present structural => exact child_mem_subtrees (mem_of_child? present)

end Functions

namespace Rule

def Lowered (whole pattern : Node) : Prop :=
  ∃ function ∈ whole.subtrees, function.kind ∈ Functions.kinds ∧ Functions.Lowers function pattern

def Released (whole : Node) (token : Label) : Prop :=
  ∃ function ∈ whole.subtrees, function.kind ∈ Functions.kinds ∧ Functions.Releads function token

def Carried (whole : Node) (token : Label) : Prop :=
  ∃ old ∈ whole.leaves, old.Moved token ∧ (token.lead = old.lead ∨ Released whole old)

def Sourced (whole : Node) (string : Label) : Prop :=
  ∃ statement ∈ whole.subtrees,
    (statement.kind = "import_statement" ∨ statement.kind = "export_statement") ∧
    ∃ source, statement.child? "source" = some source ∧ source.kind = "string" ∧
      source.label.origin = string.origin

inductive Added (whole : Node) (parent token : Label) : Prop where
  | hint (kind : parent.kind = "type_annotation") (made : parent.origin = none)
      (content : token.token = some ":" ∨ ∃ hint : TypeHint, token.token = some hint.typeText)
  | parenthesis (kind : parent.kind = "formal_parameters") (made : parent.origin = none)
      (content : token.token = some "(" ∨ token.token = some ")")
  | parameter (kind : parent.kind ∈ Functions.parameterKinds) (place : token.slot = some "pattern")
      (identifier : token.kind = "identifier") (number : Nat)
      (content : token.token = some (FreshNames.name number))
  | binding (kind : parent.kind = "lexical_declaration") (made : parent.origin = none)
      (content : token.token = some "const" ∨ token.token = some ";")
  | declarator (kind : parent.kind = "variable_declarator") (made : parent.origin = none)
      (content : token.token = some "=" ∨
        ∃ number, token.token = some (FreshNames.name number))
  | block (kind : parent.kind = Bindings.blockKind) (made : parent.origin = none)
      (content : token.token = some "\x7b" ∨ token.token = some "\x7d")
  | returning (kind : parent.kind = "return_statement") (made : parent.origin = none)
      (content : token.token = some "return" ∨ token.token = some ";")
  | specifier (kind : parent.kind = "string") (source : Sourced whole parent)
      (content : token.kind = "string_fragment" ∨
        ∃ quote : Char, token.token = some quote.toString)

theorem Added.congr {whole : Node} {parent other token moved : Label}
    (added : Added whole parent token) (kind : other.kind = parent.kind)
    (origin : other.origin = parent.origin) (same : ∃ lead, moved = { token with lead }) :
    Added whole other moved := by
  obtain ⟨lead, rfl⟩ := same
  cases added with
  | hint here made content => exact .hint (kind.trans here) (origin.trans made) content
  | parenthesis here made content => exact .parenthesis (kind.trans here) (origin.trans made) content
  | parameter here place identifier number content =>
      exact .parameter (kind ▸ here) place identifier number content
  | binding here made content => exact .binding (kind.trans here) (origin.trans made) content
  | declarator here made content => exact .declarator (kind.trans here) (origin.trans made) content
  | block here made content => exact .block (kind.trans here) (origin.trans made) content
  | returning here made content => exact .returning (kind.trans here) (origin.trans made) content
  | specifier here source content =>
      obtain ⟨statement, member, site, found, present, string, same⟩ := source
      exact .specifier (kind.trans here)
        ⟨statement, member, site, found, present, string, same.trans origin.symm⟩ content

-- What is known of a node in the course of a run.
structure Traced (link : Node → Node → Prop) (whole : Node) (parent : Label) (tree : Node) :
    Prop where
  childless : tree.isLeaf = true → tree.children = [] ∨ (tree.kind = "string" ∧
    ∀ child ∈ tree.children, child.isLeaf = true ∧ child.children = [])
  linked : tree.isLeaf = false → tree.kind ∈ siteKinds → ∃ old ∈ whole.subtrees, link old tree
  token : tree.isLeaf = true →
    Carried whole tree.label ∨ (tree.label.origin = none ∧ Added whole parent tree.label)

def Sound (whole : Node) (parent : Label) (tree : Node) : Prop :=
  Traced Faithful whole parent tree ∧ Below (Traced Faithful whole) tree

-- A node that the walk comes to: its children may have been annotated already.
def Received (whole : Node) (parent : Label) (tree : Node) : Prop :=
  Traced Inherits whole parent tree ∧ Below (Traced Faithful whole) tree

variable {whole tree : Node} {link : Node → Node → Prop} {parent other : Label}

theorem Traced.reparent (traced : Traced link whole parent tree) (kind : other.kind = parent.kind)
    (origin : other.origin = parent.origin) : Traced link whole other tree where
  childless := traced.childless
  linked := traced.linked
  token leaf := (traced.token leaf).imp_right fun ⟨made, added⟩ =>
    ⟨made, added.congr kind origin ⟨_, rfl⟩⟩

namespace Sound

theorem received (sound : Sound whole parent tree) : Received whole parent tree := by
  obtain ⟨here, below⟩ := sound
  refine ⟨⟨here.childless, fun inner site => ?_, here.token⟩, below⟩
  obtain ⟨old, member, faithful⟩ := here.linked inner site
  exact ⟨old, member, faithful.inherits⟩

theorem of_children (inner : tree.isLeaf = false) (other : tree.kind ∉ siteKinds)
    (each : ∀ child ∈ tree.children, Sound whole tree.label child) : Sound whole parent tree := by
  refine ⟨⟨fun leaf => ?_, fun _ site => absurd site other, fun leaf => ?_⟩, ?_⟩
  · simp [inner] at leaf
  · simp [inner] at leaf
  · exact (below_iff tree).mpr each

theorem leaf {kind token lead : String} {slot : Option String}
    (added : Added whole parent (leaf kind token lead slot).label) :
    Sound whole parent (leaf kind token lead slot) := by
  refine ⟨⟨fun _ => .inl rfl, fun inner => ?_, fun _ => .inr ⟨rfl, added⟩⟩, ?_⟩
  · cases inner
  · exact (below_iff _).mpr fun child member => absurd member List.not_mem_nil

theorem moved (sound : Sound whole parent tree)
    (own : tree.isLeaf = true → ¬ Added whole parent tree.label) (slot : Option String) :
    Sound whole other (tree.withSlot slot) := by
  obtain ⟨here, below⟩ := sound
  refine ⟨⟨here.childless, fun inner site => ?_, fun leaf => .inl ?_⟩, ?_⟩
  · obtain ⟨old, member, faithful⟩ := here.linked inner site
    exact ⟨old, member, faithful.withSlot slot⟩
  · rcases here.token leaf with carried | ⟨_, added⟩
    · obtain ⟨old, member, same, lead⟩ := carried
      exact ⟨old, member, same.trans ⟨slot, _, rfl⟩, lead⟩
    · exact absurd added (own leaf)
  · exact below.relabel fun child traced => traced.reparent rfl rfl

end Sound

def MayRelead (whole : Node) (first : Label) : Prop :=
  ∀ token ∈ whole.leaves, token.origin = first.origin → Released whole token

theorem Traced.withTrivia (traced : Traced Faithful whole parent tree) {lead : String}
    (movedLead : lead ∈ movedLeads) (may : ∀ first ∈ tree.leaves.head?, MayRelead whole first) :
    Traced Faithful whole parent (tree.withTrivia lead) := by
  obtain ⟨label, children⟩ := tree
  cases leaf : label.isLeaf with
  | true =>
      rw [withTrivia_leaf lead children leaf]
      rw [leaves_leaf label children leaf] at may
      refine ⟨traced.childless, fun inner => absurd (leaf.symm.trans inner) (by decide), fun _ => ?_⟩
      rcases traced.token leaf with ⟨old, member, same, _⟩ | ⟨made, added⟩
      · have released := may label rfl old member same.origin.symm
        exact .inl ⟨old, member, same.trans ⟨_, lead, rfl⟩, .inr released⟩
      · exact .inr ⟨made, added.congr rfl rfl ⟨lead, rfl⟩⟩
  | false =>
      have same := (SameButLead.refl (.node label children)).withTrivia movedLead
      have inner : ((node label children).withTrivia lead).isLeaf = false := same.isLeaf.trans leaf
      refine ⟨fun token => ?_, fun _ site => ?_, fun token => ?_⟩
      · simp [inner] at token
      · rw [same.kind] at site
        obtain ⟨old, member, faithful⟩ := traced.linked leaf site
        exact ⟨old, member, faithful.withTrivia movedLead⟩
      · simp [inner] at token

theorem Sound.withTrivia (sound : Sound whole parent tree) {lead : String}
    (movedLead : lead ∈ movedLeads) (may : ∀ first ∈ tree.leaves.head?, MayRelead whole first) :
    Sound whole parent (tree.withTrivia lead) :=
  ⟨sound.1.withTrivia movedLead may,
    sound.2.withTrivia (fun _ traced => traced.reparent rfl rfl)
      (fun traced may => traced.withTrivia movedLead may) may⟩

theorem sound_of_below (below : Below (Traced Faithful whole) tree) :
    ∀ child ∈ tree.children, Sound whole tree.label child := (below_iff tree).mp below

theorem sound_hint (hint : TypeHint) (slot : Option String) :
    Sound whole parent (hint.toNode slot) := by
  refine .of_children rfl (show "type_annotation" ∉ siteKinds by decide) fun child member => ?_
  rcases (by simpa [TypeHint.toNode, Tree.branch] using member :
    child = mark ":" "" ∨ child = leaf hint.typeKind hint.typeText " " none) with rfl | rfl
  · exact .leaf (.hint rfl rfl (.inl rfl))
  · exact .leaf (.hint rfl rfl (.inr ⟨hint, rfl⟩))

end Rule

end ScriptTyping
