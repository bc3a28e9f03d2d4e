set_option autoImplicit false

namespace ScriptTyping.ConsoleMarkup

def opensTag (c : Char) : Bool :=
  ('a' ≤ c && c ≤ 'z') || c == '#' || c == '/' || c == '@'

def closesTag : List Char → Bool
  | [] => false
  | c :: rest => c == ']' || (c != '[' && closesTag rest)

def isTag : List Char → Bool
  | [] => false
  | c :: rest => opensTag c && closesTag rest

def escapeTags (slashes : Nat) (written : Array Char) : List Char → Array Char
  | [] => written ++ Array.replicate slashes '\\'
  | c :: rest =>
      if c = '\\' then escapeTags (slashes + 1) written rest
      else
        let tagged := c = '[' ∧ isTag rest = true
        let before := if tagged then 2 * slashes + 1 else slashes
        escapeTags 0 ((written ++ Array.replicate before '\\').push c) rest

-- A single backslash at the end would escape what is written after it, so it is doubled.
def closeEnd (chars : List Char) : List Char :=
  match chars.reverse with
  | '\\' :: '\\' :: _ => chars
  | '\\' :: _ => chars ++ ['\\']
  | _ => chars

def escape (text : String) : String :=
  String.ofList (closeEnd (escapeTags 0 #[] text.toList).toList)

end ScriptTyping.ConsoleMarkup
