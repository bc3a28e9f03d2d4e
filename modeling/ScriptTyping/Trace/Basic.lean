set_option autoImplicit false

namespace ScriptTyping

inductive Entry where
  | phaseStart (name detail : String)
  | phaseEnd (name : String)
  | edit (kind before after : String)
  | specifier (before after : String)
  | decision (subject outcome reason : String)
  | error (message : String)
deriving DecidableEq

namespace Entry

def type : Entry → String
  | phaseStart .. => "phase_start"
  | phaseEnd .. => "phase_end"
  | edit .. => "edit"
  | specifier .. => "specifier"
  | decision .. => "decision"
  | error .. => "error"

def description : Entry → String
  | phaseStart name _ => name
  | phaseEnd name => name
  | edit kind _ _ => "Rewrote " ++ kind
  | specifier before _ => "Normalized " ++ before
  | decision subject _ _ => "Left '" ++ subject ++ "' as is"
  | error message => message

def details : Entry → List (String × String)
  | phaseStart _ detail => [("detail", detail)]
  | phaseEnd _ => []
  | edit _ before after => [("before", before), ("after", after)]
  | specifier before after => [("before", before), ("after", after)]
  | decision _ outcome reason => [("outcome", outcome), ("reason", reason)]
  | error _ => []

def isPhase : Entry → Bool
  | phaseStart .. | phaseEnd .. => true
  | _ => false

end Entry

structure Event where
  id : Nat
  parent : Option Nat
  entry : Entry
deriving DecidableEq

structure Trace where
  events : Array Event
  -- The numbers of the open phases, innermost first.
  opened : List Nat

namespace Trace

def empty : Trace := ⟨#[], []⟩

def current (trace : Trace) : Option Nat := trace.opened.head?

def nextId (trace : Trace) : Nat := trace.events.size + 1

def add (trace : Trace) (parent : Option Nat) (entry : Entry) : Trace :=
  { trace with events := trace.events.push ⟨trace.nextId, parent, entry⟩ }

def record (trace : Trace) (entry : Entry) : Trace := trace.add trace.current entry

-- Opens a phase. Its number is `nextId` of the trace before.
def enter (trace : Trace) (name detail : String) : Trace :=
  let started := trace.record (.phaseStart name detail)
  { started with opened := trace.nextId :: trace.opened }

def phaseName (trace : Trace) (start : Nat) : String :=
  match trace.events[start - 1]? with
  | some event => event.entry.description
  | none => ""

-- Ends the phase with the given start and takes the innermost phase off the open ones.
def leave (trace : Trace) (start : Nat) : Trace :=
  { trace with opened := trace.opened.tail }.add (some start) (.phaseEnd (trace.phaseName start))

def counts (trace : Trace) : List (String × Nat) :=
  let types := (trace.events.toList.filter fun event => !event.entry.isPhase).map (·.entry.type)
  types.eraseDups.map fun type => (type, types.count type)

@[simp]
theorem events_add (trace : Trace) (parent : Option Nat) (entry : Entry) :
    (trace.add parent entry).events = trace.events.push ⟨trace.nextId, parent, entry⟩ := rfl

@[simp]
theorem opened_add (trace : Trace) (parent : Option Nat) (entry : Entry) :
    (trace.add parent entry).opened = trace.opened := rfl

def Numbered (trace : Trace) : Prop :=
  ∀ index, ∀ event, trace.events[index]? = some event → event.id = index + 1

theorem Numbered.add {trace : Trace} (numbered : trace.Numbered) (parent : Option Nat)
    (entry : Entry) : (trace.add parent entry).Numbered := by
  intro index event present
  simp only [events_add, Array.getElem?_push] at present
  split at present
  · simp only [Option.some.injEq] at present
    simp [← present, nextId, *]
  · exact numbered index event present

end Trace

end ScriptTyping
