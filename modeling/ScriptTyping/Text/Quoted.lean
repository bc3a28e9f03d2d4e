import ScriptTyping.Text.Hex
import ScriptTyping.Text.Printable

set_option autoImplicit false

namespace ScriptTyping.Quoted

def markFor (chars : List Char) : Char :=
  if chars.contains '\'' && !chars.contains '"' then '"' else '\''

def escape (mark c : Char) : List Char :=
  if c = mark ∨ c = '\\' then ['\\', c]
  else if c = '\n' then ['\\', 'n']
  else if c = '\r' then ['\\', 'r']
  else if c = '\t' then ['\\', 't']
  else if isPrintable c then [c]
  else if c.toNat < 0x100 then '\\' :: 'x' :: Hex.digits 2 c.toNat
  else if c.toNat < 0x10000 then '\\' :: 'u' :: Hex.digits 4 c.toNat
  else '\\' :: 'U' :: Hex.digits 8 c.toNat

def quoteChars (chars : List Char) : List Char :=
  let mark := markFor chars
  mark :: (chars.flatMap (escape mark) ++ [mark])

end ScriptTyping.Quoted

namespace ScriptTyping

def quoted (text : String) : String := String.ofList (Quoted.quoteChars text.toList)

end ScriptTyping
