import ScriptTyping.Conversion
import ScriptTyping.Proofs.Rule.Notes
import ScriptTyping.Proofs.Trace.Discipline

set_option autoImplicit false

namespace ScriptTyping

namespace Trace

structure Written (acts : List Act) (phases : List Nat) (trace : Trace) : Prop where
  nested : Nested acts
  stands : standing acts = phases
  performed : performAll? acts .empty = some trace

namespace Written

variable {acts : List Act} {phases : List Nat} {trace : Trace}

theorem empty : Written [] [] .empty := ⟨Leaves.nil, rfl, rfl⟩

theorem opened (written : Written acts phases trace) : trace.opened = phases :=
  (nests_of_nested written.nested written.performed).opened.trans written.stands

theorem nextId (written : Written acts phases trace) : trace.nextId = acts.length + 1 := by
  obtain ⟨other, performed, reached⟩ := reached_of_leftOnce written.nested.leftOnce
  obtain rfl := Option.some.inj (performed.symm.trans written.performed)
  rw [Reached.nextId_eq, reached.disciplined.length]

theorem enter (written : Written acts phases trace) (name detail : String) :
    Written (acts ++ [.enter name detail]) (trace.nextId :: phases) (trace.enter name detail) where
  nested := written.nested.concat fun _ _ same => by cases same
  stands := by rw [standing_concat, written.stands, written.nextId, Act.stand]
  performed := by
    rw [performAll?_concat, written.performed]
    rfl

theorem leave {start : Nat} (written : Written acts (start :: phases) trace) :
    Written (acts ++ [.leave start false]) phases (trace.leave start) where
  nested := written.nested.concat fun _ _ same => by
    cases same
    rw [written.stands, List.head?_cons]
  stands := by rw [standing_concat, written.stands, Act.stand, List.erase_cons_head]
  performed := by
    rw [performAll?_concat, written.performed, Option.bind_some, Act.perform?, written.opened]
    rfl

theorem record (written : Written acts phases trace) {entry : Entry} (plain : entry.isPhase = false) :
    Written (acts ++ [.record entry plain]) phases (trace.record entry) where
  nested := written.nested.concat fun _ _ same => by cases same
  stands := by rw [standing_concat, written.stands, Act.stand]
  performed := by
    rw [performAll?_concat, written.performed]
    rfl

theorem recordAll (written : Written acts phases trace) {entries : List Entry}
    (plain : ∀ entry ∈ entries, entry.isPhase = false) :
    ∃ acts, Written acts phases (recordAll entries trace) := by
  induction entries generalizing acts trace with
  | nil => exact ⟨acts, written⟩
  | cons entry rest ih =>
      exact ih (written.record (plain entry (by simp))) fun other member => plain other (by simp [member])

end Written

end Trace

namespace Conversion

open Trace

variable {source : String} {parse : ParseTree} {conversion : Conversion}

def Phased (before after : Trace) : Prop :=
  ∃ rest, after.events.toList = before.events.toList ++ rest ∧
    ∀ event ∈ rest, event.entry.isPhase = true

namespace Phased

variable {before after : Trace}

theorem refl (trace : Trace) : Phased trace trace := ⟨[], by simp, by simp⟩

theorem snoc {event : Event} {more : Trace} (phased : Phased before after)
    (events : more.events = after.events.push event) (phase : event.entry.isPhase = true) :
    Phased before more := by
  obtain ⟨rest, same, phases⟩ := phased
  refine ⟨rest ++ [event], ?_, fun other member => ?_⟩
  · rw [events, Array.toList_push, same, List.append_assoc]
  · rcases List.mem_append.mp member with earlier | last
    · exact phases other earlier
    · obtain rfl := List.mem_singleton.mp last
      exact phase

theorem enter (phased : Phased before after) (name detail : String) :
    Phased before (after.enter name detail) :=
  phased.snoc rfl rfl

theorem leave (phased : Phased before after) (start : Nat) : Phased before (after.leave start) :=
  phased.snoc rfl rfl

end Phased

def Attributed (tree : Node) (trace : Trace) : Prop :=
  ∃ walking : Trace, (Rule.walk Rule.all tree (.start walking)).fault = none ∧
    ∃ start ∈ walking.events.toList, start.entry = .phaseStart "Transforming" "Single Traversal" ∧
      ∃ added, (Rule.walk Rule.all tree (.start walking)).state.trace.events.toList =
          walking.events.toList ++ added ∧
        (∀ event ∈ added, event.parent = some start.id) ∧
        Phased .empty walking ∧
        Phased (Rule.walk Rule.all tree (.start walking)).state.trace trace

theorem Attributed.leave {tree : Node} {trace : Trace} (attributed : Attributed tree trace)
    (start : Nat) : Attributed tree (trace.leave start) := by
  obtain ⟨walking, complete, opening, member, named, added, same, parents, first, last⟩ := attributed
  exact ⟨walking, complete, opening, member, named, added, same, parents, first, last.leave start⟩

theorem transform_attributed {trace : Trace} {tree : Node} {acts : List Act} {phases : List Nat}
    (written : Written acts phases trace) (phased : Phased .empty trace)
    (completes : transform trace tree = .ok conversion) :
    (∃ acts, Written acts phases conversion.trace) ∧ Attributed tree conversion.trace := by
  simp only [transform] at completes
  split at completes
  next => cases completes
  next complete =>
    cases completes
    let walking := trace.enter "Transforming" "Single Traversal"
    obtain ⟨entries, plain, noted⟩ := Rule.notes_walk Rule.all tree (.start walking)
    obtain ⟨added, same, _, parents⟩ := @events_recordAll walking entries
    obtain ⟨recorded, walked⟩ := (written.enter "Transforming" "Single Traversal").recordAll plain
    rw [← show _ = recordAll entries walking from noted] at same walked
    refine ⟨⟨_, (walked.leave.enter _ _).leave⟩, walking, complete, ⟨trace.nextId, trace.current, _⟩,
      ?_, rfl, added, same, parents, phased.enter _ _, ?_⟩
    · simp [walking, Trace.enter, Trace.record]
    · exact (((Phased.refl _).leave _).enter _ _).leave _

theorem run_attributed (completes : run source parse = .ok conversion) :
    (∃ acts, Written acts [] conversion.trace) ∧
      (conversion.success = true → ∃ tree, readParse source parse = .ok tree ∧
        Attributed tree conversion.trace) := by
  unfold run at completes
  dsimp only at completes
  have parsing := (Written.empty.enter "Conversion Pipeline" "JavaScript -> TypeScript").enter
    "Parsing" "Source Text -> Syntax Tree"
  split at completes
  next => cases completes
  next =>
    cases completes
    exact ⟨⟨_, (parsing.record rfl).leave.leave⟩, fun success => by cases success⟩
  next tree read =>
    split at completes
    next => cases completes
    next transformed same =>
      cases completes
      have phased := (((Phased.refl .empty).enter "Conversion Pipeline"
        "JavaScript -> TypeScript").enter "Parsing" "Source Text -> Syntax Tree").leave 2
      obtain ⟨⟨acts, written⟩, attributed⟩ := transform_attributed parsing.leave phased same
      exact ⟨⟨_, written.leave⟩, fun _ => ⟨tree, read, attributed.leave _⟩⟩

/-- Acts that leave each phase at most once all succeed and leave a disciplined trace; if phases are left
in the opposite order of entering, it is nested. The trace of a conversion is nested, and what its rules
record belongs to one phase. -/
theorem phases_disciplined :
    (∀ acts, LeftOnce acts → ∃ trace, performAll? acts .empty = some trace ∧
      Disciplined acts trace.events.toList ∧ (standing acts = [] → trace.current = none) ∧
      (Nested acts → Nests acts trace ∧ (standing acts = [] → Balanced trace.events.toList))) ∧
    ∀ source parse conversion, run source parse = .ok conversion →
      (∃ acts, Written acts [] conversion.trace) ∧
      (conversion.success = true → ∃ tree, readParse source parse = .ok tree ∧
        Attributed tree conversion.trace) := by
  refine ⟨fun acts once => ?_, fun _ _ _ completes => run_attributed completes⟩
  obtain ⟨trace, performed, reached⟩ := reached_of_leftOnce once
  refine ⟨trace, performed, reached.disciplined, reached.closed, fun nested => ?_⟩
  have nests := nests_of_nested nested performed
  refine ⟨nests, fun none => ?_⟩
  have bracketed := nests.bracketed
  rw [none] at bracketed
  exact bracketed.balanced

-- The outer phase is left first.
def crossing : List Act :=
  [.enter "outer" "", .enter "inner" "", .leave 1 false, .record (.error "late") rfl, .leave 2 false]

def failing : List Act :=
  [.enter "outer" "", .enter "inner" "", .record (.error "wrong") rfl, .leave 2 true, .leave 1 true]

theorem crossing_leftOnce : LeftOnce crossing := by
  have stands : ∀ start failed, (Act.leave 2 false = .leave start failed) →
      start ∈ standing (crossing.take 4) := by
    rintro start failed ⟨⟩
    decide
  have first : ∀ start failed, (Act.leave 1 false = .leave start failed) →
      start ∈ standing (crossing.take 2) := by
    rintro start failed ⟨⟩
    decide
  exact ((((Leaves.nil.concat (by simp)).concat (by simp)).concat first).concat (by simp)).concat stands

theorem failing_nested : Nested failing := by
  have inner : ∀ start failed, (Act.leave 2 true = .leave start failed) →
      (standing (failing.take 3)).head? = some start := by
    rintro start failed ⟨⟩
    rfl
  have outer : ∀ start failed, (Act.leave 1 true = .leave start failed) →
      (standing (failing.take 4)).head? = some start := by
    rintro start failed ⟨⟩
    rfl
  exact ((((Leaves.nil.concat (by simp)).concat (by simp)).concat (by simp)).concat inner).concat outer

def declaredSource : String := "let n = 1;"

def declaredParse : ParseTree :=
  let token (kind : String) (start stop : Nat) (slot : Option String) : ParseTree :=
    .node ⟨kind, start, stop, slot, false, false, false⟩ []
  let inner (kind : String) (start stop : Nat) (children : List ParseTree) : ParseTree :=
    .node ⟨kind, start, stop, none, false, false, false⟩ children
  inner "program" 0 10
    [inner "lexical_declaration" 0 10
      [token "let" 0 3 (some "kind"),
       inner "variable_declarator" 4 9
         [token "identifier" 4 5 (some "name"), token "=" 6 7 none,
          token "number" 8 9 (some "value")],
       token ";" 9 10 none]]

theorem crossing_disciplined :
    LeftOnce crossing ∧
    (∃ trace, performAll? crossing .empty = some trace ∧ Disciplined crossing trace.events.toList ∧
      trace.current = none ∧
      trace.events.toList.map (·.parent) = [none, some 1, some 1, some 1, some 2]) ∧
    Nested failing ∧
    (∃ trace, performAll? failing .empty = some trace ∧ Nests failing trace ∧
      Balanced trace.events.toList ∧
      trace.events.toList.map (·.parent) = [none, some 1, some 2, some 2, some 1]) ∧
    ∃ conversion tree, run declaredSource declaredParse = .ok conversion ∧
      readParse declaredSource declaredParse = .ok tree ∧ Attributed tree conversion.trace := by
  obtain ⟨acts, runs⟩ := phases_disciplined
  obtain ⟨crossed, performed, disciplined, closed, _⟩ := acts crossing crossing_leftOnce
  obtain ⟨failed, performed', _, _, nested⟩ := acts failing failing_nested.leftOnce
  obtain ⟨nests, balanced⟩ := nested failing_nested
  refine ⟨crossing_leftOnce, ⟨crossed, performed, disciplined, closed rfl, ?_⟩, failing_nested,
    ⟨failed, performed', nests, balanced rfl, ?_⟩, ?_⟩
  · cases performed
    rfl
  · cases performed'
    rfl
  · have succeeds : (run declaredSource declaredParse).toOption.map (·.success) = some true := by
      decide +kernel
    cases completes : run declaredSource declaredParse with
    | error fault => simp [completes, Except.toOption] at succeeds
    | ok conversion =>
        simp only [completes, Except.toOption, Option.map_some, Option.some.injEq] at succeeds
        obtain ⟨tree, read, attributed⟩ := (runs _ _ _ completes).2 succeeds
        exact ⟨conversion, tree, rfl, read, attributed⟩

end Conversion

end ScriptTyping
