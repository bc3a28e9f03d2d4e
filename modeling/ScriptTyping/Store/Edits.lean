import ScriptTyping.Store.Basic

set_option autoImplicit false

namespace ScriptTyping.Store

inductive Edit where
  | insert (parent : NodeId) (index : Int) (child : NodeId)
  | append (parent child : NodeId)
  | remove (parent child : NodeId)
  | replace (parent old new : NodeId)
  | replaceChildren (parent : NodeId) (children : List NodeId)

namespace Edit

def receiver : Edit → NodeId
  | insert parent _ _ => parent
  | append parent _ => parent
  | remove parent _ => parent
  | replace parent _ _ => parent
  | replaceChildren parent _ => parent

def outcome {α : Type} : Edited α → Store × Option StoreFault
  | .ok _ after => (after, none)
  | .error fault after => (after, some fault)

def perform (store : Store) : Edit → Store × Option StoreFault
  | insert parent index child => outcome (store.insert parent index child)
  | append parent child => (Store.append parent store child, none)
  | remove parent child => outcome (store.remove parent child)
  | replace parent old new => outcome (store.replace parent old new)
  | replaceChildren parent children => (store.replaceChildren parent children, none)

-- A failed edit does not stop the others.
def performAll (store : Store) : List Edit → Store
  | [] => store
  | edit :: rest => performAll (edit.perform store).1 rest

end Edit

end ScriptTyping.Store
