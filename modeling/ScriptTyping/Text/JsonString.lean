import ScriptTyping.Text.Hex

set_option autoImplicit false

namespace ScriptTyping.JsonString

def unit (value : Nat) : List Char := '\\' :: 'u' :: Hex.digits 4 value

def escape (c : Char) : List Char :=
  let code := c.toNat
  if c = '"' ∨ c = '\\' then ['\\', c]
  else if c = '\n' then ['\\', 'n']
  else if c = '\r' then ['\\', 'r']
  else if c = '\t' then ['\\', 't']
  else if code = 8 then ['\\', 'b']
  else if code = 12 then ['\\', 'f']
  else if 0x20 ≤ code ∧ code < 0x7F then [c]
  else if code < 0x10000 then unit code
  else
    let beyond := code - 0x10000
    unit (0xD800 + beyond / 0x400) ++ unit (0xDC00 + beyond % 0x400)

def encode (text : String) : String :=
  String.ofList ('"' :: (text.toList.flatMap escape ++ ['"']))

end ScriptTyping.JsonString
