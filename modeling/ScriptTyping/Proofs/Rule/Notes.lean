import ScriptTyping.Proofs.Rule.Pass
import ScriptTyping.Proofs.Walk.States

set_option autoImplicit false

namespace ScriptTyping

def Entry.isMarkup : Entry → Bool
  | .decision _ outcome _ => outcome == "markup"
  | _ => false

namespace Trace

def recordAll (entries : List Entry) (trace : Trace) : Trace := entries.foldl record trace

variable {trace : Trace}

theorem events_recordAll (entries : List Entry) :
    ∃ added, (recordAll entries trace).events.toList = trace.events.toList ++ added ∧
      added.map (·.entry) = entries ∧ ∀ event ∈ added, event.parent = trace.current := by
  induction entries generalizing trace with
  | nil => exact ⟨[], by simp [recordAll], rfl, by simp⟩
  | cons entry rest ih =>
      obtain ⟨added, events, same, parents⟩ := @ih (trace.record entry)
      refine ⟨⟨trace.nextId, trace.current, entry⟩ :: added, ?_, by simp [same], ?_⟩
      · rw [show recordAll (entry :: rest) trace = recordAll rest (trace.record entry) from rfl, events]
        simp [record]
      · intro event member
        rcases List.mem_cons.mp member with rfl | later
        · rfl
        · exact parents event later

end Trace

def Session.Notes (allowed : Entry → Prop) (before after : Session) : Prop :=
  ∃ entries, (∀ entry ∈ entries, allowed entry) ∧
    after.trace = Trace.recordAll entries before.trace

namespace Session.Notes

variable {allowed wider : Entry → Prop} {before middle after : Session}

theorem refl (session : Session) : Notes allowed session session := ⟨[], by simp, rfl⟩

theorem trans (first : Notes allowed before middle) (second : Notes allowed middle after) :
    Notes allowed before after := by
  obtain ⟨earlier, all, same⟩ := first
  obtain ⟨later, others, equal⟩ := second
  refine ⟨earlier ++ later, fun entry member => ?_, ?_⟩
  · rcases List.mem_append.mp member with here | there
    · exact all entry here
    · exact others entry there
  · rw [equal, same, Trace.recordAll, Trace.recordAll, Trace.recordAll, List.foldl_append]

theorem one (session : Session) (marked : List Nat) {entry : Entry} (here : allowed entry) :
    Notes allowed session ({ session with marked }.record entry) :=
  ⟨[entry], by simpa using here, rfl⟩

theorem mono (notes : Notes allowed before after) (weaker : ∀ entry, allowed entry → wider entry) :
    Notes wider before after := by
  obtain ⟨entries, all, same⟩ := notes
  exact ⟨entries, fun entry member => weaker entry (all entry member), same⟩

end Session.Notes

def Entry.IsPlain (entry : Entry) : Prop := entry.isPhase = false ∧ entry.isMarkup = false

namespace Functions

theorem notes_annotateParameters (taken : List String) (canLower : Bool) (children : List Node)
    (number : Nat) (session : Session) :
    Session.Notes Entry.IsPlain session
      (annotateParameters taken canLower children number session).session := by
  induction children generalizing number session with
  | nil => exact .refl session
  | cons child rest ih =>
      rw [annotateParameters]
      cases changeOf canLower child with
      | pass => exact ih number session
      | keep => exact .trans (.one session session.marked ⟨rfl, rfl⟩) (ih _ _)
      | annotate => exact .trans (.one session session.marked ⟨rfl, rfl⟩) (ih _ _)
      | lower pattern => exact .trans (.one session session.marked ⟨rfl, rfl⟩) (ih _ _)

theorem notes_annotateResult (tree parameters : Node) (session : Session) :
    Session.Notes Entry.IsPlain session (annotateResult tree parameters session).2 := by
  unfold annotateResult
  split
  · exact .refl session
  · split
    · exact .one session session.marked ⟨rfl, rfl⟩
    · exact .one session session.marked ⟨rfl, rfl⟩

end Functions

namespace Rule

theorem notes_of_handle {rule : Rule} (other : rule ≠ markup) (number : Nat) (above : List Label)
    (tree : Node) (session : Session) :
    Session.Notes Entry.IsPlain session ((rule.handler number).handle above tree session).state := by
  have one {entry : Entry} (plain : entry.IsPlain) :
      Session.Notes Entry.IsPlain session (session.record entry) := .one session session.marked plain
  cases rule with
  | declarations =>
      simp only [handler, Declarations.handler, Declarations.handle]
      repeat' split
      · exact .refl session
      · exact one ⟨rfl, rfl⟩
      · exact one ⟨rfl, rfl⟩
      · exact one ⟨rfl, rfl⟩
  | loopHeaders =>
      simp only [handler, LoopHeaders.handler, LoopHeaders.handle]
      repeat' split
      · exact .refl session
      · exact one ⟨rfl, rfl⟩
      · exact .refl session
  | functions =>
      simp only [handler, Functions.handler, Functions.handle]
      split
      · exact .refl session
      · split
        · exact .refl session
        · split
          · exact Functions.notes_annotateParameters _ _ _ _ _
          · exact (Functions.notes_annotateParameters _ _ _ _ _).trans
              (Functions.notes_annotateResult _ _ _)
  | imports =>
      simp only [handler, Imports.handler, Imports.handle]
      repeat' split
      · exact .refl session
      · exact .refl session
      · exact .refl session
      · exact one ⟨rfl, rfl⟩
      · exact one ⟨rfl, rfl⟩
  | markup => exact absurd rfl other

theorem notes_markup (detector : Nat) (above : List Label) (tree : Node) (session : Session) :
    Session.Notes (·.isPhase = false) session (Markup.handle detector above tree session).state := by
  unfold Markup.handle
  split
  · exact .refl session
  · exact .one session _ rfl

theorem notes_walk (rules : List Rule) (tree : Node) (session : Session) :
    Session.Notes (·.isPhase = false) session (walk rules tree session).state := by
  refine walk_related .refl (fun _ _ _ first second => first.trans second) ?_ _ _ _
  intro handler member above tree session
  obtain ⟨rule, number, rfl⟩ := mem_tableFrom member
  by_cases detects : rule = markup
  · subst detects
    exact notes_markup number above tree session
  · exact (notes_of_handle detects number above tree session).mono fun _ plain => plain.1

end Rule

end ScriptTyping
