import Mathlib.Data.List.Forall2
import Mathlib.Data.List.Induction
import ScriptTyping.Trace.Acts

set_option autoImplicit false

namespace ScriptTyping.Trace

def Act.stand (number : Nat) (phases : List Nat) : Act → List Nat
  | enter _ _ => number :: phases
  | leave start _ => phases.erase start
  | record _ _ => phases

def standFrom : Nat → List Nat → List Act → List Nat
  | _, phases, [] => phases
  | number, phases, act :: rest => standFrom (number + 1) (act.stand number phases) rest

def standing (acts : List Act) : List Nat := standFrom 1 [] acts

theorem standFrom_concat (number : Nat) (phases : List Nat) (acts : List Act) (act : Act) :
    standFrom number phases (acts ++ [act]) =
      act.stand (number + acts.length) (standFrom number phases acts) := by
  induction acts generalizing number phases with
  | nil => rfl
  | cons first rest ih =>
      rw [List.cons_append, standFrom, standFrom, ih, List.length_cons]
      congr 1
      omega

theorem standing_concat (acts : List Act) (act : Act) :
    standing (acts ++ [act]) = act.stand (acts.length + 1) (standing acts) := by
  rw [standing, standFrom_concat, Nat.add_comm]
  rfl

def Leaves (allowed : List Nat → Nat → Prop) (acts : List Act) : Prop :=
  ∀ before start failed after, acts = before ++ .leave start failed :: after →
    allowed (standing before) start

def LeftOnce (acts : List Act) : Prop := Leaves (fun phases start => start ∈ phases) acts

def Nested (acts : List Act) : Prop := Leaves (fun phases start => phases.head? = some start) acts

theorem concat_split {before after acts : List Act} {act last : Act}
    (split : acts ++ [last] = before ++ act :: after) :
    (before = acts ∧ act = last) ∨ ∃ rest, acts = before ++ act :: rest := by
  rcases List.eq_nil_or_concat after with rfl | ⟨rest, final, rfl⟩
  · obtain ⟨same, equal⟩ := List.append_inj' split rfl
    exact .inl ⟨same.symm, (List.singleton_inj.mp equal).symm⟩
  · refine .inr ⟨rest, ?_⟩
    rw [List.concat_eq_append, ← List.cons_append, ← List.append_assoc] at split
    exact (List.append_inj' split rfl).1

namespace Leaves

variable {allowed : List Nat → Nat → Prop} {acts : List Act} {act : Act}

theorem nil : Leaves allowed [] := by
  intro before start failed after split
  simp at split

theorem init (leaves : Leaves allowed (acts ++ [act])) : Leaves allowed acts := by
  rintro before start failed after rfl
  exact leaves before start failed (after ++ [act]) (by simp)

theorem last {start : Nat} {failed : Bool} (leaves : Leaves allowed (acts ++ [.leave start failed])) :
    allowed (standing acts) start :=
  leaves acts start failed [] rfl

theorem concat (leaves : Leaves allowed acts)
    (here : ∀ start failed, act = .leave start failed → allowed (standing acts) start) :
    Leaves allowed (acts ++ [act]) := by
  intro before start failed after split
  rcases concat_split split with ⟨rfl, rfl⟩ | ⟨rest, inside⟩
  · exact here start failed rfl
  · exact leaves before start failed rest inside

end Leaves

theorem Nested.leftOnce {acts : List Act} (nested : Nested acts) : LeftOnce acts :=
  fun before start failed after split =>
    List.mem_of_head? (nested before start failed after split)

def Opens (events : List Event) (phase : Nat) : Prop :=
  ∃ start ∈ events, start.id = phase ∧ ∃ name detail, start.entry = .phaseStart name detail

inductive Writes (events : List Event) : Act → Event → Prop where
  | enter {name detail : String} {event : Event} (entry : event.entry = .phaseStart name detail) :
      Writes events (.enter name detail) event
  | leave {start : Nat} {failed : Bool} {name detail : String} {own event : Event}
      (started : own ∈ events) (number : own.id = start)
      (opening : own.entry = .phaseStart name detail) (entry : event.entry = .phaseEnd name)
      (parent : event.parent = some start) : Writes events (.leave start failed) event
  | record {entry : Entry} {plain : entry.isPhase = false} {event : Event}
      (same : event.entry = entry) : Writes events (.record entry plain) event

theorem Writes.more {events : List Event} {act : Act} {event : Event}
    (writes : Writes events act event) (later : List Event) : Writes (events ++ later) act event := by
  cases writes with
  | enter entry => exact .enter entry
  | leave started number opening entry parent =>
      exact .leave (List.mem_append_left later started) number opening entry parent
  | record same => exact .record same

theorem Opens.more {events : List Event} {phase : Nat} (opens : Opens events phase)
    (later : List Event) : Opens (events ++ later) phase := by
  obtain ⟨start, member, rest⟩ := opens
  exact ⟨start, List.mem_append_left later member, rest⟩

theorem Opens.after {events : List Event} {phase : Nat} (opens : Opens events phase)
    (earlier : List Event) : Opens (earlier ++ events) phase := by
  obtain ⟨start, member, rest⟩ := opens
  exact ⟨start, List.mem_append_right earlier member, rest⟩

structure Disciplined (acts : List Act) (events : List Event) : Prop where
  numbered : events.map (·.id) = List.range' 1 acts.length
  written : List.Forall₂ (Writes events) acts events
  parents : ∀ event ∈ events, ∀ phase, event.parent = some phase →
    phase < event.id ∧ Opens events phase

namespace Disciplined

variable {acts : List Act} {events : List Event}

theorem length (disciplined : Disciplined acts events) : events.length = acts.length := by
  simpa using congrArg List.length disciplined.numbered

theorem getElem?_of_mem (disciplined : Disciplined acts events) {event : Event}
    (member : event ∈ events) : events[event.id - 1]? = some event ∧ event.id ≤ events.length := by
  obtain ⟨index, within, rfl⟩ := List.getElem_of_mem member
  have number : events[index].id = 1 + index := by
    have same := disciplined.numbered
    rw [List.ext_getElem_iff] at same
    have here := same.2 index (by simpa using within) (by simpa [← disciplined.length] using within)
    simpa using here
  rw [number]
  exact ⟨by simp [within], by omega⟩

theorem concat (disciplined : Disciplined acts events) {act : Act} {event : Event}
    (number : event.id = events.length + 1) (writes : Writes events act event)
    (belongs : ∀ phase, event.parent = some phase → Opens events phase) :
    Disciplined (acts ++ [act]) (events ++ [event]) where
  numbered := by
    rw [List.map_append, disciplined.numbered, List.length_append, List.length_singleton,
      List.range'_1_concat, List.map_singleton, number, disciplined.length, Nat.add_comm]
  written := by
    refine List.rel_append (disciplined.written.imp fun _ _ writes => writes.more [event]) ?_
    exact .cons (writes.more [event]) .nil
  parents := by
    intro other member phase parent
    rcases List.mem_append.mp member with earlier | last
    · obtain ⟨before, opens⟩ := disciplined.parents other earlier phase parent
      exact ⟨before, opens.more [event]⟩
    · obtain rfl := List.mem_singleton.mp last
      have opens := belongs phase parent
      obtain ⟨start, started, same, _⟩ := id opens
      have within := (disciplined.getElem?_of_mem started).2
      exact ⟨by omega, opens.more [other]⟩

theorem phaseName_of_mem {trace : Trace} (disciplined : Disciplined acts trace.events.toList)
    {own : Event} (started : own ∈ trace.events.toList) :
    trace.phaseName own.id = own.entry.description := by
  have place := (disciplined.getElem?_of_mem started).1
  rw [Array.getElem?_toList] at place
  rw [phaseName, place]

end Disciplined

-- What acts leave when each phase is left at most once. The open list has as many phases as stand
-- open; which ones these are may differ.
structure Reached (acts : List Act) (trace : Trace) : Prop where
  disciplined : Disciplined acts trace.events.toList
  depth : trace.opened.length = (standing acts).length
  opened : ∀ phase ∈ trace.opened, Opens trace.events.toList phase
  started : ∀ phase ∈ standing acts, Opens trace.events.toList phase

namespace Reached

variable {acts : List Act} {trace : Trace}

theorem empty : Reached [] .empty where
  disciplined := ⟨rfl, .nil, by simp [Trace.empty]⟩
  depth := rfl
  opened := by simp [Trace.empty]
  started := by simp [standing, standFrom]

theorem nextId_eq (trace : Trace) : trace.nextId = trace.events.toList.length + 1 := by
  rw [Array.length_toList, nextId]

theorem current (reached : Reached acts trace) :
    ∀ phase, trace.current = some phase → Opens trace.events.toList phase :=
  fun phase same => reached.opened phase (List.mem_of_head? same)

theorem closed (reached : Reached acts trace) (all : standing acts = []) : trace.current = none := by
  have none := reached.depth
  rw [all, List.length_nil, List.length_eq_zero_iff] at none
  rw [Trace.current, none, List.head?_nil]

theorem step (reached : Reached acts trace) {act : Act} {event : Event} {after : Trace}
    (events : after.events.toList = trace.events.toList ++ [event])
    (number : event.id = trace.nextId) (writes : Writes trace.events.toList act event)
    (belongs : ∀ phase, event.parent = some phase → Opens trace.events.toList phase)
    (depth : after.opened.length = (act.stand trace.nextId (standing acts)).length)
    (opened : ∀ phase ∈ after.opened, phase ∈ trace.opened ∨ Opens [event] phase)
    (started : ∀ phase ∈ act.stand trace.nextId (standing acts),
      phase ∈ standing acts ∨ Opens [event] phase) : Reached (acts ++ [act]) after := by
  have place : acts.length + 1 = trace.nextId := by rw [nextId_eq, reached.disciplined.length]
  refine ⟨?_, ?_, fun phase member => ?_, fun phase member => ?_⟩
  · rw [events]
    exact reached.disciplined.concat (number.trans (nextId_eq trace)) writes belongs
  · rw [standing_concat, place, depth]
  · rw [events]
    rcases opened phase member with earlier | new
    · exact (reached.opened phase earlier).more _
    · exact new.after _
  · rw [events]
    rw [standing_concat, place] at member
    rcases started phase member with earlier | new
    · exact (reached.started phase earlier).more _
    · exact new.after _

theorem enter (reached : Reached acts trace) (name detail : String) :
    Reached (acts ++ [.enter name detail]) (trace.enter name detail) := by
  have opens : Opens [⟨trace.nextId, trace.current, .phaseStart name detail⟩] trace.nextId :=
    ⟨_, List.mem_singleton_self _, rfl, name, detail, rfl⟩
  refine reached.step (by simp [Trace.enter, Trace.record]; rfl) rfl (.enter rfl) reached.current
    (congrArg (· + 1) reached.depth) (fun phase member => ?_) (fun phase member => ?_)
  · rcases List.mem_cons.mp member with rfl | earlier
    · exact .inr opens
    · exact .inl earlier
  · rcases List.mem_cons.mp member with rfl | earlier
    · exact .inr opens
    · exact .inl earlier

theorem record (reached : Reached acts trace) {entry : Entry} (plain : entry.isPhase = false) :
    Reached (acts ++ [.record entry plain]) (trace.record entry) :=
  reached.step (by simp [Trace.record]; rfl) rfl (.record rfl) reached.current reached.depth
    (fun _ member => .inl member) (fun _ member => .inl member)

theorem leave (reached : Reached acts trace) {start : Nat} (failed : Bool)
    (stands : start ∈ standing acts) :
    trace.opened.isEmpty = false ∧ Reached (acts ++ [.leave start failed]) (trace.leave start) := by
  obtain ⟨own, started, rfl, name, detail, opening⟩ := reached.started _ stands
  have named : trace.phaseName own.id = name := by
    rw [reached.disciplined.phaseName_of_mem started, opening]
    rfl
  have fewer := List.length_erase_of_mem stands
  have some := List.length_pos_of_mem stands
  have depth := reached.depth
  constructor
  · rw [List.isEmpty_eq_false_iff, ← List.length_pos_iff]
    omega
  · refine reached.step (by simp [Trace.leave]; rfl) rfl
      (.leave started rfl opening (by rw [named]) rfl) ?_ ?_
      (fun _ member => .inl (List.mem_of_mem_tail member))
      (fun _ member => .inl (List.mem_of_mem_erase member))
    · rintro phase ⟨⟩
      exact ⟨own, started, rfl, name, detail, opening⟩
    · rw [Act.stand, Trace.leave, opened_add, List.length_tail]
      omega

end Reached

theorem reached_of_leftOnce {acts : List Act} (once : LeftOnce acts) :
    ∃ trace, performAll? acts .empty = some trace ∧ Reached acts trace := by
  induction acts using List.reverseRecOn with
  | nil => exact ⟨.empty, rfl, .empty⟩
  | append_singleton acts act ih =>
      obtain ⟨trace, performed, reached⟩ := ih once.init
      rw [performAll?_concat, performed, Option.bind_some]
      cases act with
      | enter name detail => exact ⟨_, rfl, reached.enter name detail⟩
      | record entry plain => exact ⟨_, rfl, reached.record plain⟩
      | leave start failed =>
          obtain ⟨possible, after⟩ := reached.leave failed once.last
          refine ⟨_, ?_, after⟩
          rw [Act.perform?, possible]
          rfl

inductive Balanced : List Event → Prop where
  | nil : Balanced []
  | record {event : Event} {rest : List Event} (plain : event.entry.isPhase = false)
      (later : Balanced rest) : Balanced (event :: rest)
  | phase {start stop : Event} {name detail : String} {inside rest : List Event}
      (opening : start.entry = .phaseStart name detail) (within : Balanced inside)
      (closing : stop.entry = .phaseEnd name) (own : stop.parent = some start.id)
      (later : Balanced rest) : Balanced (start :: (inside ++ stop :: rest))

-- All brackets are balanced but for the starts of the given phases, the innermost first.
inductive Bracketed : List Nat → List Event → Prop where
  | closed {events : List Event} (balanced : Balanced events) : Bracketed [] events
  | opened {phases : List Nat} {start : Event} {name detail : String} {before inside : List Event}
      (outside : Bracketed phases before) (opening : start.entry = .phaseStart name detail)
      (within : Balanced inside) : Bracketed (start.id :: phases) (before ++ start :: inside)

theorem Balanced.append {first second : List Event} (left : Balanced first)
    (right : Balanced second) : Balanced (first ++ second) := by
  induction left with
  | nil => exact right
  | record plain later ih => exact .record plain ih
  | phase opening within closing own later _ ih =>
      rw [List.cons_append, List.append_assoc, List.cons_append]
      exact .phase opening within closing own ih

namespace Bracketed

variable {phases : List Nat} {events inside : List Event}

theorem append (bracketed : Bracketed phases events) (within : Balanced inside) :
    Bracketed phases (events ++ inside) := by
  cases bracketed with
  | closed balanced => exact .closed (balanced.append within)
  | opened outside opening earlier =>
      rw [List.append_assoc, List.cons_append]
      exact .opened outside opening (earlier.append within)

theorem close {start : Nat} {name detail : String} {own stop : Event}
    (bracketed : Bracketed (start :: phases) events) (started : own ∈ events)
    (number : own.id = start) (opening : own.entry = .phaseStart name detail)
    (unique : ∀ event ∈ events, event.id = start → event = own)
    (closing : stop.entry = .phaseEnd name) (parent : stop.parent = some start) :
    Bracketed phases (events ++ [stop]) := by
  cases bracketed with
  | @opened _ first _ _ before inside outside opens within =>
      obtain rfl := unique first (by simp) rfl
      rw [opens] at opening
      cases opening
      rw [List.append_assoc, List.cons_append]
      exact outside.append (.phase opens within closing parent .nil)

end Bracketed

theorem Bracketed.balanced {events : List Event} (bracketed : Bracketed [] events) :
    Balanced events := by
  cases bracketed with
  | closed balanced => exact balanced

theorem Reached.close {acts : List Act} {trace : Trace} (reached : Reached acts trace) {start : Nat}
    {phases : List Nat} (stands : start ∈ standing acts)
    (bracketed : Bracketed (start :: phases) trace.events.toList) :
    Bracketed phases (trace.leave start).events.toList := by
  obtain ⟨own, started, rfl, name, detail, opening⟩ := reached.started _ stands
  have unique : ∀ event ∈ trace.events.toList, event.id = own.id → event = own := by
    intro event member same
    have place := (reached.disciplined.getElem?_of_mem member).1
    rw [same, (reached.disciplined.getElem?_of_mem started).1] at place
    exact (Option.some.inj place).symm
  let stop : Event := ⟨trace.nextId, some own.id, .phaseEnd name⟩
  have closing : stop.entry = .phaseEnd name := rfl
  have closed := bracketed.close started rfl opening unique closing rfl
  have named : trace.phaseName own.id = name := by
    rw [reached.disciplined.phaseName_of_mem started, opening]
    rfl
  simpa [stop, Trace.leave, nextId, named] using closed

structure Nests (acts : List Act) (trace : Trace) : Prop where
  innermost : ∀ before act after, acts = before ++ act :: after →
    (∀ start failed, act ≠ .leave start failed) →
      ∃ event, trace.events[before.length]? = some event ∧
        event.parent = (standing before).head?
  bracketed : Bracketed (standing acts) trace.events.toList
  opened : trace.opened = standing acts

namespace Nests

variable {acts : List Act} {trace after : Trace} {act : Act} {event : Event}

theorem empty : Nests [] .empty where
  innermost before act after split := by simp at split
  bracketed := .closed .nil
  opened := rfl

theorem innermost_concat (nests : Nests acts trace) (size : trace.events.size = acts.length)
    (events : after.events = trace.events.push event)
    (own : (∀ start failed, act ≠ .leave start failed) → event.parent = trace.current) :
    ∀ before other later, acts ++ [act] = before ++ other :: later →
      (∀ start failed, other ≠ .leave start failed) →
        ∃ event, after.events[before.length]? = some event ∧
          event.parent = (standing before).head? := by
  intro before other later split stays
  rw [events]
  rcases concat_split split with ⟨rfl, rfl⟩ | ⟨rest, rfl⟩
  · refine ⟨event, by rw [← size, Array.getElem?_push_size], ?_⟩
    rw [own stays, Trace.current, nests.opened]
  · obtain ⟨earlier, present, parent⟩ := nests.innermost before other rest rfl stays
    refine ⟨earlier, ?_, parent⟩
    obtain ⟨within, _⟩ := Array.getElem?_eq_some_iff.mp present
    rw [Array.getElem?_push_lt within, ← Array.getElem?_eq_getElem within, present]

theorem step (nests : Nests acts trace) (reached : Reached acts trace)
    (innermost : ∀ start failed, act = .leave start failed → (standing acts).head? = some start)
    (performed : act.perform? trace = some after) : Nests (acts ++ [act]) after := by
  have size : trace.events.size = acts.length := by
    rw [← Array.length_toList, reached.disciplined.length]
  have place : acts.length + 1 = trace.nextId := by rw [nextId, size]
  cases act with
  | enter name detail =>
      cases performed
      refine ⟨nests.innermost_concat size rfl fun _ => rfl, ?_, ?_⟩
      · let start : Event := ⟨trace.nextId, trace.current, .phaseStart name detail⟩
        have opening : start.entry = .phaseStart name detail := rfl
        have opened := nests.bracketed.opened opening .nil
        simpa [standing_concat, Act.stand, place, Trace.enter, Trace.record] using opened
      · rw [standing_concat, place, Act.stand, ← nests.opened]
        rfl
  | record entry plain =>
      cases performed
      refine ⟨nests.innermost_concat size rfl fun _ => rfl, ?_, ?_⟩
      · let event : Event := ⟨trace.nextId, trace.current, entry⟩
        have more := nests.bracketed.append (.record (show event.entry.isPhase = false from plain) .nil)
        simpa [standing_concat, Act.stand, Trace.record] using more
      · rw [standing_concat, Act.stand, ← nests.opened]
        rfl
  | leave start failed =>
      have first := innermost start failed rfl
      obtain ⟨phases, stand⟩ := List.head?_eq_some_iff.mp first
      rw [Act.perform?] at performed
      split at performed
      · cases performed
      · cases performed
        have bracketed := nests.bracketed
        rw [stand] at bracketed
        have closed := reached.close (by simp [stand]) bracketed
        refine ⟨nests.innermost_concat size rfl fun stays => absurd rfl (stays start failed), ?_, ?_⟩
        · rw [standing_concat, Act.stand, stand, List.erase_cons_head]
          exact closed
        · rw [standing_concat, Act.stand, stand, List.erase_cons_head, Trace.leave, opened_add,
            nests.opened, stand]
          rfl

end Nests

theorem nests_of_nested {acts : List Act} {trace : Trace} (nested : Nested acts)
    (performed : performAll? acts .empty = some trace) : Nests acts trace := by
  induction acts using List.reverseRecOn generalizing trace with
  | nil =>
      cases performed
      exact .empty
  | append_singleton acts act ih =>
      obtain ⟨before, earlier, reached⟩ := reached_of_leftOnce (Nested.leftOnce nested.init)
      rw [performAll?_concat, earlier, Option.bind_some] at performed
      refine (ih nested.init earlier).step reached ?_ performed
      rintro start failed rfl
      exact nested.last

end ScriptTyping.Trace
