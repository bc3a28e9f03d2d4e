import ScriptTyping.Store.Basic

set_option autoImplicit false

namespace ScriptTyping.Store

def isLeaf (store : Store) (id : NodeId) : Bool := (store.label id).isLeaf

inductive Piece where
  | node (id : NodeId)
  | trail (content : String)

def pieces (store : Store) (id : NodeId) : List Piece :=
  let trail := (store.label id).trail
  (store.children id).map .node ++ if trail.isEmpty then [] else [.trail trail]

def printStep (store : Store) : List Piece × String → (List Piece × String) ⊕ String
  | ([], printed) => .inr printed
  | (.trail content :: rest, printed) => .inl (rest, printed ++ content)
  | (.node id :: rest, printed) =>
      match (store.label id).token with
      | some token => .inl (rest, printed ++ (store.label id).lead ++ token)
      | none => .inl (store.pieces id ++ rest, printed)

def text (store : Store) (id : NodeId) : String :=
  repeatM (m := Id) store.printStep ([.node id], "")

def leavesStep (store : Store) :
    List NodeId × Array NodeId → (List NodeId × Array NodeId) ⊕ Array NodeId
  | ([], found) => .inr found
  | (id :: rest, found) =>
      if store.isLeaf id then .inl (rest, found.push id)
      else .inl (store.children id ++ rest, found)

def leaves (store : Store) (id : NodeId) : List NodeId :=
  let found : Array NodeId := repeatM (m := Id) store.leavesStep ([id], #[])
  found.toList

def firstLeafStep (store : Store) : List NodeId → List NodeId ⊕ Option NodeId
  | [] => .inr none
  | id :: rest => if store.isLeaf id then .inr (some id) else .inl (store.children id ++ rest)

def firstLeaf? (store : Store) (id : NodeId) : Option NodeId :=
  repeatM (m := Id) store.firstLeafStep [id]

def trivia (store : Store) (id : NodeId) : String :=
  match store.firstLeaf? id with
  | some leaf => (store.label leaf).lead
  | none => ""

def setTrivia (store : Store) (id : NodeId) (lead : String) : Store :=
  match store.firstLeaf? id with
  | some leaf => store.setLabel leaf { store.label leaf with lead }
  | none => store

def sourceText (store : Store) (id : NodeId) : String :=
  String.ofList ((store.text id).toList.drop (store.trivia id).length)

end ScriptTyping.Store
