import ScriptTyping.Parse.Basic

set_option autoImplicit false

namespace ScriptTyping.Rows

def number? (text : String) : Option Nat :=
  if !text.isEmpty && text.toList.all Char.isDigit then text.toNat? else none

-- Reads one line. Spaces belong to the kind once the slot is read.
def row? (line : String) : Option (ParseLabel × Nat) :=
  match line.splitOn " " with
  | start :: stop :: count :: damage :: slot :: kind => do
      let start ← number? start
      let stop ← number? stop
      let count ← number? count
      let marks := damage.toList
      let label : ParseLabel :=
        { kind := String.intercalate " " kind, start, stop
          slot := if slot = "-" then none else some slot
          isError := marks.contains 'e'
          isMissing := marks.contains 'm'
          hasError := marks.contains 'h' }
      return (label, count)
  | _ => none

def tree? (text : String) : Option ParseTree :=
  (((text.splitOn "\n").filter fun line => !line.isEmpty).mapM row?).bind Tree.ofRows?

end ScriptTyping.Rows
