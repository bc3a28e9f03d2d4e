import Mathlib.Data.List.Perm.Subperm
import ScriptTyping.Proofs.Rule.Inheritance

set_option autoImplicit false

namespace ScriptTyping

namespace FreshNames

theorem name_succ_ne_zero (number : Nat) : name (number + 1) ≠ name 0 := by
  intro same
  have longer := congrArg String.length same
  simp only [name, String.length_append, Nat.add_eq_left] at longer
  exact Nat.repr_ne_empty (String.length_eq_zero_iff.mp longer)

theorem name_injective : Function.Injective name := by
  intro left right same
  cases left with
  | zero =>
      cases right with
      | zero => rfl
      | succ right => exact absurd same.symm (name_succ_ne_zero right)
  | succ left =>
      cases right with
      | zero => exact absurd same (name_succ_ne_zero left)
      | succ right =>
          have digits : (toString (left + 1)).toList = (toString (right + 1)).toList := by
            simpa [name] using congrArg String.toList same
          simp only [Nat.toString_eq_repr, Nat.toList_repr] at digits
          simpa using congrArg (fun digits => Nat.ofDigitChars 10 digits 0) digits

theorem le_search (taken : List String) (tries start : Nat) : start ≤ search taken tries start := by
  induction tries generalizing start with
  | zero => exact Nat.le_refl start
  | succ tries ih =>
      rw [search]
      split
      · exact Nat.le_of_succ_le (ih (start + 1))
      · exact Nat.le_refl start

theorem taken_of_search {taken : List String} {tries start : Nat}
    (found : name (search taken tries start) ∈ taken) {offset : Nat} (within : offset ≤ tries) :
    name (start + offset) ∈ taken := by
  induction tries generalizing start offset with
  | zero =>
      obtain rfl := Nat.le_zero.mp within
      exact found
  | succ tries ih =>
      rw [search] at found
      split at found
      next first =>
        cases offset with
        | zero => simpa using first
        | succ offset =>
            rw [Nat.add_comm offset, ← Nat.add_assoc]
            exact ih found (by omega)
      next other => exact absurd found (by simpa using other)

-- There are more tries than taken names, so one of them succeeds.
theorem next_not_taken (taken : List String) (start : Nat) : name (next taken start) ∉ taken := by
  intro found
  let tried := (List.range (taken.length + 1)).map fun offset => name (start + offset)
  have distinct : tried.Nodup :=
    List.nodup_range.map fun left right same => Nat.add_left_cancel (name_injective same)
  have among : tried ⊆ taken := by
    intro text member
    obtain ⟨offset, within, rfl⟩ := List.mem_map.mp member
    exact taken_of_search found (by simpa [Nat.lt_succ_iff] using within)
  have fewer := (distinct.subperm among).length_le
  simp only [tried, List.length_map, List.length_range] at fewer
  omega

theorem mem_drawFrom {taken : List String} {count start : Nat} {text : String}
    (member : text ∈ drawFrom taken count start) :
    text ∉ taken ∧ ∃ number, start ≤ number ∧ text = name number := by
  induction count generalizing start with
  | zero => simp [drawFrom] at member
  | succ count ih =>
      have later := le_search taken taken.length start
      rcases List.mem_cons.mp member with rfl | below
      · exact ⟨next_not_taken taken start, _, later, rfl⟩
      · obtain ⟨free, number, least, same⟩ := ih below
        exact ⟨free, number, Nat.le_trans later (Nat.le_of_succ_le least), same⟩

theorem nodup_drawFrom (taken : List String) (count start : Nat) :
    (drawFrom taken count start).Nodup := by
  induction count generalizing start with
  | zero => exact .nil
  | succ count ih =>
      refine List.nodup_cons.mpr ⟨fun again => ?_, ih _⟩
      obtain ⟨_, number, least, same⟩ := mem_drawFrom again
      exact absurd (name_injective same) (by omega)

end FreshNames

namespace Functions

inductive Names (canLower : Bool) : List Node → List Node → List String → Prop where
  | nil : Names canLower [] [] []
  | same {child : Node} {rest after : List Node} {names : List String}
      (settled : changeOf canLower child = .pass ∨ changeOf canLower child = .keep)
      (later : Names canLower rest after names) :
      Names canLower (child :: rest) (child :: after) names
  | typed {child : Node} {rest after : List Node} {names : List String}
      (change : changeOf canLower child = .annotate) (later : Names canLower rest after names) :
      Names canLower (child :: rest) (annotateParameter child :: after) names
  | lowered {child pattern : Node} {rest after : List Node} {name : String} {names : List String}
      (change : changeOf canLower child = .lower pattern)
      (later : Names canLower rest after names) :
      Names canLower (child :: rest) (annotateParameter (renamed name child) :: after)
        (name :: names)

theorem names_annotateParameters (taken : List String) (canLower : Bool) (children : List Node)
    (number : Nat) (session : Session) :
    ∃ count, Names canLower children
      (annotateParameters taken canLower children number session).children
      (FreshNames.drawFrom taken count number) := by
  induction children generalizing number session with
  | nil => exact ⟨0, .nil⟩
  | cons child rest ih =>
      rw [annotateParameters]
      cases change : changeOf canLower child with
      | pass =>
          obtain ⟨count, later⟩ := ih number session
          exact ⟨count, .same (.inl change) later⟩
      | keep =>
          obtain ⟨count, later⟩ := ih number _
          exact ⟨count, .same (.inr change) later⟩
      | annotate =>
          obtain ⟨count, later⟩ := ih number _
          exact ⟨count, .typed change later⟩
      | lower pattern =>
          obtain ⟨count, later⟩ := ih (FreshNames.next taken number + 1) _
          exact ⟨count + 1, .lowered change later⟩

theorem name_of_renamed {canLower : Bool} {child pattern : Node} {name other : String}
    (change : changeOf canLower child = .lower pattern)
    (same : annotateParameter (renamed name child) = annotateParameter (renamed other child)) :
    name = other := by
  obtain ⟨left, middle, rest, _, _, split⟩ := typed_split (changeOf_lower change).2.1
  rw [split name, split other] at same
  have children := congrArg Tree.children same
  simpa [Tree.leaf] using children

theorem Names.unique {canLower : Bool} {before after : List Node} {names others : List String}
    (left : Names canLower before after names) (right : Names canLower before after others) :
    names = others := by
  induction left generalizing others with
  | nil =>
      cases right
      rfl
  | @same child rest after names settled later ih =>
      generalize equal : child :: after = whole at right
      cases right with
      | same _ others =>
          cases equal
          exact ih others
      | typed change _ => simp [change] at settled
      | lowered change _ => simp [change] at settled
  | @typed child rest after names change later ih =>
      generalize equal : annotateParameter child :: after = whole at right
      cases right with
      | same settled _ => simp [change] at settled
      | typed _ others =>
          cases equal
          exact ih others
      | lowered other _ => simp [change] at other
  | @lowered child pattern rest after name names change later ih =>
      generalize equal : annotateParameter (renamed name child) :: after = whole at right
      cases right with
      | same settled _ => simp [change] at settled
      | typed other _ => simp [change] at other
      | lowered _ others =>
          obtain ⟨head, rfl⟩ := List.cons.inj equal
          rw [name_of_renamed change head, ih others]

theorem namesOf_withTrivia (kinds : List String) (lead : String) (tree : Node) :
    namesOf kinds (tree.withTrivia lead) = namesOf kinds tree := by
  rw [namesOf, namesOf, Tree.leaves_withTrivia]
  cases tree.leaves with
  | nil => rfl
  | cons first rest =>
      simp only [Label.releadFirst, List.filter_cons]
      split <;> rfl

theorem namesOf_withSlot (kinds : List String) (slot : Option String) (tree : Node) :
    namesOf kinds (tree.withSlot slot) = namesOf kinds tree := by
  rw [namesOf, namesOf, Tree.leaves_withSlot]
  split
  next leaf =>
    obtain ⟨label, children⟩ := tree
    rw [Tree.leaves_leaf label children leaf]
    simp only [List.filter_cons, Tree.label_node]
    split <;> rfl
  next => rfl

theorem namesOf_parenthesized (bare : Node) :
    namesOf bindingKinds (parenthesized bare) = namesOf bindingKinds bare := by
  have within := namesOf_withSlot bindingKinds (some "pattern") (bare.withTrivia "")
  rw [namesOf_withTrivia] at within
  have opening : (Tree.mark "(" bare.trivia).label.kind ∉ bindingKinds :=
    show "(" ∉ bindingKinds by decide
  have closing : (Tree.mark ")" "").label.kind ∉ bindingKinds := show ")" ∉ bindingKinds by decide
  rw [← within]
  simp [namesOf, parenthesized, opening, closing]

inductive Binds (tree : Node) : String → Prop where
  | listed {list : Node} {name : String} (present : tree.child? "parameters" = some list)
      (member : name ∈ namesOf bindingKinds list) : Binds tree name
  | single {bare : Node} {name : String} (unlisted : tree.hasChild "parameters" = false)
      (present : tree.child? "parameter" = some bare)
      (member : name ∈ namesOf bindingKinds bare) : Binds tree name
  | declared {body statement target : Node} {name : String}
      (present : tree.child? "body" = some body) (block : body.kind = Bindings.blockKind)
      (below : statement ∈ body.children) (declares : statement.kind ∈ declarationKinds)
      (names : statement.child? "name" = some target ∨ ∃ declarator ∈ statement.children,
        declarator.kind = "variable_declarator" ∧ declarator.child? "name" = some target)
      (member : name ∈ namesOf declaredKinds target) : Binds tree name

theorem mem_declaredBy {statement target : Node} {name : String}
    (declares : statement.kind ∈ declarationKinds)
    (names : statement.child? "name" = some target ∨ ∃ declarator ∈ statement.children,
      declarator.kind = "variable_declarator" ∧ declarator.child? "name" = some target)
    (member : name ∈ namesOf declaredKinds target) : name ∈ declaredBy statement := by
  have contains : declarationKinds.contains statement.kind = true := by simpa using declares
  rw [declaredBy, if_pos contains]
  refine List.mem_flatMap.mpr ⟨target, List.mem_filterMap.mpr ?_, member⟩
  rcases names with named | ⟨declarator, below, kind, named⟩
  · exact ⟨statement, by simp, named⟩
  · exact ⟨declarator, by simp [below, kind], named⟩

theorem taken_of_binds {tree started list : Node} {name : String}
    (start : withParameters? tree = some started)
    (present : started.child? "parameters" = some list) (binds : Binds tree name) :
    name ∈ takenNames started list := by
  have bound (member : name ∈ namesOf bindingKinds list) : name ∈ takenNames started list := by
    unfold takenNames
    split
    · split
      · exact List.mem_append_left _ member
      · exact member
    · exact member
  cases binds with
  | @listed found _ shown member =>
      refine bound ?_
      rcases withParameters?_cases start with ⟨_, rfl⟩ | ⟨unlisted, _⟩
      · rw [present] at shown
        cases shown
        exact member
      · simp [Tree.hasChild, shown] at unlisted
  | @single bare _ unlisted shown member =>
      refine bound ?_
      rcases withParameters?_cases start with ⟨listed, _⟩ | ⟨_, found, left, right, single, split, rfl⟩
      · simp [unlisted] at listed
      · rw [shown] at single
        cases single
        rw [child?_parenthesized unlisted split] at present
        cases present
        rwa [namesOf_parenthesized]
  | @declared body statement target _ shown block below declares names member =>
      rw [← child?_started_other start (by decide) (by decide)] at shown
      simp only [takenNames, shown, block, beq_self_eq_true, if_true]
      refine List.mem_append_right _ (List.mem_flatMap.mpr ⟨statement, below, ?_⟩)
      exact mem_declaredBy declares names member

def Introduces (tree handled : Node) (names : List String) : Prop :=
  ∃ started before after, withParameters? tree = some started ∧
    started.child? "parameters" = some before ∧ handled.child? "parameters" = some after ∧
    Names (started.hasChild "body") before.children after.children names

theorem Introduces.unique {tree handled : Node} {names others : List String}
    (left : Introduces tree handled names) (right : Introduces tree handled others) :
    names = others := by
  obtain ⟨started, before, after, start, present, shown, named⟩ := left
  obtain ⟨same, found, given, again, there, here, other⟩ := right
  rw [start] at again
  cases again
  rw [present] at there
  cases there
  rw [shown] at here
  cases here
  exact named.unique other

theorem introduces_handle (above : List Label) {tree started list : Node} (session : Session)
    (start : withParameters? tree = some started)
    (present : started.child? "parameters" = some list) :
    ∃ count, Introduces tree (handle above tree session).tree
      (FreshNames.drawFrom (takenNames started list) count 0) := by
  obtain ⟨count, named⟩ := names_annotateParameters (takenNames started list)
    (started.hasChild "body") list.children 0 session
  refine ⟨count, started, list, list.withChildren _, start, present, ?_, named⟩
  simp only [handle, start, present]
  generalize annotateParameters (takenNames started list) (started.hasChild "body") list.children 0
    session = signature
  rw [← listed]
  split
  next => exact child?_list present signature.children
  next bound binds => exact signed_list present binds (resulted_annotateResult bound _ _)

/-- Unless the function has no parameters at all, its parameters are handled. No new name of a parameter is
one that the function binds, and no two of them are the same. -/
theorem handle_spares_bound_names (above : List Label) (tree : Node) (session : Session) :
    (withParameters? tree = none ∧ (handle above tree session).tree = tree ∨
      ∃ names, Introduces tree (handle above tree session).tree names) ∧
    ∀ names, Introduces tree (handle above tree session).tree names →
      names.Nodup ∧ ∀ name ∈ names, ¬ Binds tree name := by
  cases start : withParameters? tree with
  | none =>
      refine ⟨.inl ⟨rfl, by simp [handle, start]⟩, ?_⟩
      rintro names ⟨started, _, _, found, _⟩
      simp [start] at found
  | some started =>
      obtain ⟨list, present⟩ := child?_started start
      obtain ⟨count, introduces⟩ := introduces_handle above session start present
      refine ⟨.inr ⟨_, introduces⟩, fun names given => ?_⟩
      obtain rfl := given.unique introduces
      refine ⟨FreshNames.nodup_drawFrom _ count 0, fun name member binds => ?_⟩
      exact (FreshNames.mem_drawFrom member).1 (taken_of_binds start present binds)

section Taking

def patterned : Node :=
  .branch "required_parameter"
    [.branch "object_pattern"
      [.mark "\x7b" "",
       .leaf "shorthand_property_identifier_pattern" "a" "" none,
       .mark "\x7d" ""] (some "pattern")] none

def defaulted : Node :=
  .branch "required_parameter"
    [.leaf "identifier" "b" " " (some "pattern"),
     .mark "=" " ",
     .branch "object"
      [.mark "\x7b" " ",
       .leaf "shorthand_property_identifier" "params" "" none,
       .mark "\x7d" ""] (some "value")] none

def taking (statement : Node) : Node :=
  .branch "function_declaration"
    [.mark "function" "",
     .leaf "identifier" "f" " " (some "name"),
     .branch "formal_parameters"
      [.mark "(" "", patterned, .mark "," "", defaulted, .mark ")" ""] (some "parameters"),
     .branch "statement_block" [.mark "\x7b" " ", statement, .mark "\x7d" " "] (some "body")] none

theorem introduces_taking {statement handled : Node} (name : String)
    (shown : handled.child? "parameters" = some (.branch "formal_parameters"
      [.mark "(" "", annotateParameter (renamed name patterned), .mark "," "",
       annotateParameter defaulted, .mark ")" ""] (some "parameters"))) :
    Introduces (taking statement) handled [name] :=
  ⟨taking statement, _, _, rfl, rfl, shown,
    .same (.inl rfl) (.lowered rfl (.same (.inl rfl) (.typed rfl (.same (.inl rfl) .nil))))⟩

def declaring : Node :=
  taking (.branch "lexical_declaration"
    [.leaf "const" "const" " " (some "kind"),
     .branch "variable_declarator"
      [.leaf "identifier" "params" " " (some "name"),
       .mark "=" " ",
       .leaf "number" "1" " " (some "value")] none,
     .mark ";" ""] none)

theorem declaring_spared : Introduces declaring (handle [] declaring (.start .empty)).tree
    ["params1"] ∧ ¬ Binds declaring "params1" := by
  have introduces : Introduces declaring (handle [] declaring (.start .empty)).tree ["params1"] :=
    introduces_taking "params1" (by decide +kernel)
  have spared := (handle_spares_bound_names [] declaring (.start .empty)).2 _ introduces
  exact ⟨introduces, spared.2 "params1" (by simp)⟩

def referring : Node :=
  taking (.branch "return_statement"
    [.mark "return" " ", .leaf "identifier" "params" " " none, .mark ";" ""] none)

def referenceKinds : List String := ["identifier", "shorthand_property_identifier"]

-- A parameter may get a name to which the parameters or the body refer.
theorem handle_captures_reference :
    (¬ ∀ above tree session names, Introduces tree (handle above tree session).tree names →
      ∀ list, tree.child? "parameters" = some list →
        ∀ name ∈ names, name ∉ namesOf referenceKinds list) ∧
    ¬ ∀ above tree session names, Introduces tree (handle above tree session).tree names →
      ∀ body, tree.child? "body" = some body →
        ∀ name ∈ names, name ∉ namesOf referenceKinds body := by
  have introduces : Introduces referring (handle [] referring (.start .empty)).tree ["params"] :=
    introduces_taking "params" (by decide +kernel)
  constructor
  · intro claimed
    exact claimed [] referring (.start .empty) _ introduces _ rfl "params" (by simp)
      (by decide +kernel)
  · intro claimed
    exact claimed [] referring (.start .empty) _ introduces _ rfl "params" (by simp)
      (by decide +kernel)

end Taking

end Functions

end ScriptTyping
