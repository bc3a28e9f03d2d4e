import ScriptTyping.Rule.Bindings
import ScriptTyping.Store.Printing

set_option autoImplicit false

namespace ScriptTyping.Store

abbrev Editing := EStateM StoreFault Store

namespace Editing

def update (change : Store → Store) : Editing Unit := fun store => .ok () (change store)

def make (draft : Draft) : Editing NodeId := fun store =>
  let (after, id) := store.graft draft
  .ok id after

def indexOf (parent child : NodeId) : Editing Nat := fun store =>
  match store.indexOf parent child with
  | .ok index => .ok index store
  | .error fault => .error fault store

def remove (parent child : NodeId) : Editing Nat := fun store => store.remove parent child

-- The places that are asked for here always fit.
def insertAt (parent : NodeId) (position : Nat) (child : NodeId) : Editing Unit :=
  update fun store => store.insertAt parent position child

end Editing

-- `const pattern = name;`
def bindingDraft (pattern : NodeId) (name : String) : Draft :=
  .branch "lexical_declaration"
    [.leaf "const" "const" "" (some "kind"),
     .branch "variable_declarator"
       [.given pattern, .mark "=" " ", .leaf "identifier" name " " (some "value")] none,
     .mark ";" ""] none

def bindPattern (pattern : NodeId) (name : String) : Editing NodeId := do
  Editing.update fun store => (store.setSlot pattern (some "name")).setTrivia pattern " "
  Editing.make (bindingDraft pattern name)

def returningDraft (expression : NodeId) (lead : String) : Draft :=
  .branch Bindings.blockKind
    [.mark "\x7b" lead,
     .branch "return_statement" [.mark "return" " ", .given expression, .mark ";" ""] none,
     .mark "\x7d" " "] (some "body")

def blockBody (function : NodeId) : Editing NodeId := do
  let store ← get
  match store.child? function (some "body") with
  | none => throw .noBody
  | some body =>
      if (store.label body).kind == Bindings.blockKind then return body
      else
        let lead := store.trivia body
        let index ← Editing.remove function body
        Editing.update fun store => (store.setSlot body none).setTrivia body " "
        let block ← Editing.make (returningDraft body lead)
        Editing.insertAt function index block
        return block

def indentBefore (store : Store) : Option NodeId → String
  | none => " "
  | some following =>
      if (store.label following).kind == "\x7d" then " "
      else Bindings.indentLike (store.trivia following)

-- A closing brace is set off by a space.
def setOff (store : Store) : Option NodeId → Store
  | none => store
  | some following =>
      let label := store.label following
      if label.kind == "\x7d" && label.lead.isEmpty then
        store.setLabel following { label with lead := " " }
      else store

def insertAll (block : NodeId) (indent : String) : Nat → Store → List NodeId → Store
  | _, store, [] => store
  | position, store, statement :: rest =>
      let set := store.setTrivia statement indent
      insertAll block indent (position + 1) (set.insertAt block position statement) rest

def prepend (block : NodeId) (statements : List NodeId) : Editing Unit := do
  let store ← get
  let children := store.children block
  match children.findIdx? fun child => (store.label child).kind == "\x7b" with
  | none => throw .unopenedBlock
  | some brace =>
      let following := children[brace + 1]?
      let indent := store.indentBefore following
      Editing.update fun store =>
        insertAll block indent (brace + 1) (store.setOff following) statements

end ScriptTyping.Store
