import ScriptTyping.Trace.Basic

set_option autoImplicit false

namespace ScriptTyping.Trace

inductive Act where
  | enter (name detail : String)
  -- The work of a phase ends, or it fails and the failure goes on outside the phase.
  | leave (start : Nat) (failed : Bool)
  | record (entry : Entry) (plain : entry.isPhase = false)

-- The end of a phase is written for work that fails, too. There must be an open phase to take off.
def Act.perform? : Act → Trace → Option Trace
  | enter name detail, trace => some (trace.enter name detail)
  | leave start _, trace => if trace.opened.isEmpty then none else some (trace.leave start)
  | record entry _, trace => some (trace.record entry)

def performAll? : List Act → Trace → Option Trace
  | [], trace => some trace
  | act :: rest, trace => (act.perform? trace).bind (performAll? rest)

theorem performAll?_append (first second : List Act) (trace : Trace) :
    performAll? (first ++ second) trace = (performAll? first trace).bind (performAll? second) := by
  induction first generalizing trace with
  | nil => rfl
  | cons act rest ih =>
      rw [List.cons_append, performAll?, performAll?, Option.bind_assoc]
      exact congrArg _ (funext ih)

theorem performAll?_concat (acts : List Act) (act : Act) (trace : Trace) :
    performAll? (acts ++ [act]) trace = (performAll? acts trace).bind act.perform? := by
  rw [performAll?_append]
  exact congrArg _ (funext fun middle => Option.bind_fun_some (act.perform? middle))

end ScriptTyping.Trace
