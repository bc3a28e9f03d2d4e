import ScriptTyping.Trace.Basic
import ScriptTyping.Walk.Basic

set_option autoImplicit false

namespace ScriptTyping

structure Session where
  trace : Trace
  marked : List Nat

namespace Session

def start (trace : Trace) : Session := ⟨trace, []⟩

def record (session : Session) (entry : Entry) : Session :=
  { session with trace := session.trace.record entry }

def hasFound (session : Session) (detector : Nat) : Bool := session.marked.contains detector

end Session

end ScriptTyping
