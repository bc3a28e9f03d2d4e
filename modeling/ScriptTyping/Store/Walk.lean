import ScriptTyping.Store.Printing
import ScriptTyping.Walk.Basic

set_option autoImplicit false

namespace ScriptTyping

structure LinkedOutcome (σ : Type) where
  store : Store
  state : σ
  fault : Option WalkFault

structure LinkedHandler (σ : Type) where
  kinds : List String
  handle : NodeId → Store → σ → LinkedOutcome σ

abbrev LinkedTable (σ : Type) := List (LinkedHandler σ)

def LinkedTable.handlersFor {σ : Type} (table : LinkedTable σ) (kind : String) :
    List (LinkedHandler σ) :=
  table.filter fun handler => handler.kinds.contains kind

namespace Store

variable {σ : Type}

def applyHandlers (id : NodeId) : List (LinkedHandler σ) → Store → σ → LinkedOutcome σ
  | [], store, state => ⟨store, state, none⟩
  | handler :: rest, store, state =>
      let outcome := handler.handle id store state
      match outcome.fault with
      | some _ => outcome
      | none => applyHandlers id rest outcome.store outcome.state

-- The children are those that the node has when its handlers are done.
def walkStep (table : LinkedTable σ) :
    List NodeId × Store × σ → (List NodeId × Store × σ) ⊕ LinkedOutcome σ
  | ([], store, state) => .inr ⟨store, state, none⟩
  | (id :: rest, store, state) =>
      if store.isLeaf id then .inl (rest, store, state)
      else
        let outcome := applyHandlers id (table.handlersFor (store.label id).kind) store state
        match outcome.fault with
        | some _ => .inr outcome
        | none => .inl (outcome.store.children id ++ rest, outcome.store, outcome.state)

def walk (table : LinkedTable σ) (root : NodeId) (store : Store) (state : σ) : LinkedOutcome σ :=
  have : Nonempty (LinkedOutcome σ) := ⟨⟨store, state, none⟩⟩
  repeatM (m := Id) (walkStep table) ([root], store, state)

end Store

end ScriptTyping
