import ScriptTyping.Node.Basic

set_option autoImplicit false

namespace ScriptTyping.Children

def inSlot (slot : String) (child : Node) : Bool := child.slot == some slot

def modify (slot : String) (change : Node → Node) : List Node → List Node
  | [] => []
  | child :: rest =>
      if inSlot slot child then change child :: rest else child :: modify slot change rest

def replace (slot : String) (replacement : Node) : List Node → List Node :=
  modify slot fun _ => replacement

def erase (slot : String) (children : List Node) : List Node :=
  children.eraseP (inSlot slot)

def insertBehind (mark : String) (inserted : Node) : List Node → List Node
  | [] => [inserted]
  | child :: rest =>
      if child.kind == mark then child :: inserted :: rest else inserted :: child :: rest

-- Inserts a node after the first child in a slot, and after a child of kind `mark` that directly
-- follows it.
def insertAfterMarked (slot mark : String) (inserted : Node) : List Node → List Node
  | [] => []
  | child :: rest =>
      if inSlot slot child then child :: insertBehind mark inserted rest
      else child :: insertAfterMarked slot mark inserted rest

def insertAfter (slot : String) (inserted : Node) : List Node → List Node
  | [] => []
  | child :: rest =>
      if inSlot slot child then child :: inserted :: rest
      else child :: insertAfter slot inserted rest

end ScriptTyping.Children
