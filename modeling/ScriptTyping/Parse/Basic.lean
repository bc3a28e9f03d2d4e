import ScriptTyping.Tree.Basic

set_option autoImplicit false

namespace ScriptTyping

structure ParseLabel where
  kind : String
  start : Nat
  stop : Nat
  slot : Option String
  isError : Bool
  -- The grammar asked for this node and the source does not have it.
  isMissing : Bool
  -- This node or one below it is damaged.
  hasError : Bool
deriving DecidableEq, Inhabited

abbrev ParseTree := Tree ParseLabel

-- A place in a source text, counted from one; columns count bytes.
structure Position where
  line : Nat
  column : Nat
deriving DecidableEq

def Position.step (position : Position) (byte : UInt8) : Position :=
  if byte = 10 then ⟨position.line + 1, 1⟩ else ⟨position.line, position.column + 1⟩

def positionAt (source : ByteArray) (offset : Nat) : Position :=
  (source.extract 0 offset).toList.foldl Position.step ⟨1, 1⟩

end ScriptTyping
