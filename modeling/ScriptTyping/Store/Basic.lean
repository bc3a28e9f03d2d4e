import ScriptTyping.Node.Basic

set_option autoImplicit false

namespace ScriptTyping

abbrev NodeId := Nat

structure Cell where
  label : Label
  children : List NodeId
  parent : Option NodeId
deriving Inhabited

structure Store where
  cells : Array Cell

-- A tree that is to be made, around nodes that exist already.
inductive Draft where
  | given (id : NodeId)
  | make (label : Label) (parts : List Draft)

namespace Draft

def leaf (kind token lead : String) (slot : Option String) : Draft :=
  make { kind, slot, token := some token, lead, trail := "" } []

def mark (token lead : String) : Draft := leaf token token lead none

def branch (kind : String) (parts : List Draft) (slot : Option String) : Draft :=
  make { kind, slot, token := none, lead := "", trail := "" } parts

mutual

def ofNode : Node → Draft
  | .node label children => make label (ofNodes children)

def ofNodes : List Node → List Draft
  | [] => []
  | tree :: rest => ofNode tree :: ofNodes rest

end

end Draft

inductive StoreFault where
  | notChild (child parent : String)
  | hugeIndex
  | noBody
  | unopenedBlock
deriving DecidableEq

def StoreFault.message : StoreFault → String
  | notChild child parent => child ++ " is not a child of " ++ parent
  | hugeIndex => "index too large"
  | noBody => "no body"
  | unopenedBlock => "no opening brace"

namespace Store

def empty : Store := ⟨#[]⟩

def cell (store : Store) (id : NodeId) : Cell := store.cells.getD id default

def label (store : Store) (id : NodeId) : Label := (store.cell id).label

def children (store : Store) (id : NodeId) : List NodeId := (store.cell id).children

def parent (store : Store) (id : NodeId) : Option NodeId := (store.cell id).parent

def modify (store : Store) (id : NodeId) (change : Cell → Cell) : Store :=
  ⟨store.cells.modify id change⟩

def setParent (parent : Option NodeId) (store : Store) (id : NodeId) : Store :=
  store.modify id fun cell => { cell with parent }

def setChildren (store : Store) (id : NodeId) (children : List NodeId) : Store :=
  store.modify id fun cell => { cell with children }

def setLabel (store : Store) (id : NodeId) (label : Label) : Store :=
  store.modify id fun cell => { cell with label }

def setSlot (store : Store) (id : NodeId) (slot : Option String) : Store :=
  store.setLabel id { store.label id with slot }

def nextId (store : Store) : NodeId := store.cells.size

def alloc (store : Store) (label : Label) (children : List NodeId) : Store :=
  children.foldl (setParent (some store.nextId)) ⟨store.cells.push ⟨label, children, none⟩⟩

mutual

-- Children are made before their parent, from left to right.
def graft (store : Store) : Draft → Store × NodeId
  | .given id => (store, id)
  | .make label parts =>
      let (store, ids) := graftAll store parts
      let id := store.nextId
      (store.alloc label ids, id)

def graftAll (store : Store) : List Draft → Store × List NodeId
  | [] => (store, [])
  | part :: rest =>
      let (store, id) := graft store part
      let (store, ids) := graftAll store rest
      (store, id :: ids)

end

-- The indices that a list takes are those of a machine word.
def fits (index : Int) : Bool := decide (-0x8000000000000000 ≤ index ∧ index < 0x8000000000000000)

-- The place that an index means in a list: a negative one counts from the end, and one beyond
-- either end means that end.
def place (length : Nat) (index : Int) : Nat :=
  if index < 0 then (length + index).toNat else min index.toNat length

theorem place_le (length : Nat) (index : Int) : place length index ≤ length := by
  unfold place
  split <;> omega

def insertAt (store : Store) (parent : NodeId) (position : Nat) (child : NodeId) : Store :=
  let adopted := setParent (some parent) store child
  adopted.setChildren parent ((adopted.children parent).insertIdx position child)

abbrev Edited := EStateM.Result StoreFault Store

-- The child has its new parent before the list is asked to take it.
def insert (store : Store) (parent : NodeId) (index : Int) (child : NodeId) : Edited Unit :=
  if fits index then
    .ok () (store.insertAt parent (place (store.children parent).length index) child)
  else .error .hugeIndex (setParent (some parent) store child)

def append (parent : NodeId) (store : Store) (child : NodeId) : Store :=
  let adopted := setParent (some parent) store child
  adopted.setChildren parent (adopted.children parent ++ [child])

def indexOf (store : Store) (parent child : NodeId) : Except StoreFault Nat :=
  match (store.children parent).findIdx? (· == child) with
  | some index => .ok index
  | none => .error (.notChild (store.label child).kind (store.label parent).kind)

def remove (store : Store) (parent child : NodeId) : Edited Nat :=
  match store.indexOf parent child with
  | .error fault => .error fault store
  | .ok index =>
      let shorter := store.setChildren parent ((store.children parent).eraseIdx index)
      .ok index (setParent none shorter child)

-- The place of a child always fits.
def replace (store : Store) (parent old new : NodeId) : Edited Unit :=
  match store.remove parent old with
  | .error fault after => .error fault after
  | .ok index after => .ok () (after.insertAt parent index new)

def replaceChildren (store : Store) (parent : NodeId) (children : List NodeId) : Store :=
  let released := (store.children parent).foldl (setParent none) store
  children.foldl (append parent) (released.setChildren parent [])

def refill (store : Store) (parent : NodeId) (drafts : List Draft) : Store :=
  let (made, children) := store.graftAll drafts
  made.replaceChildren parent children

def child? (store : Store) (parent : NodeId) (slot : Option String) : Option NodeId :=
  (store.children parent).find? fun child => (store.label child).slot == slot

def unfold (store : Store) : Nat → NodeId → Tree (NodeId × Label)
  | 0, id => .node (id, store.label id) []
  | depth + 1, id =>
      .node (id, store.label id) ((store.children id).map (store.unfold depth))

-- The tree below a node; each node is given with its number.
def view (store : Store) (id : NodeId) : Tree (NodeId × Label) := store.unfold store.cells.size id

def toNode (store : Store) (id : NodeId) : Node :=
  let rows := (store.view id).rows.toList.map fun (entry, count) => (entry.2, count)
  (Tree.ofRows? rows).getD (.node (store.label id) [])

def ancestors (store : Store) : Nat → NodeId → List Label
  | 0, _ => []
  | count + 1, id =>
      match store.parent id with
      | none => []
      | some parent => store.label parent :: store.ancestors count parent

end Store

end ScriptTyping
