import ScriptTyping.Settings.Value

set_option autoImplicit false

namespace ScriptTyping

inductive ValueProblem where
  | notText
  | notList
  | notTable
  -- The value is of a type that never means a boolean.
  | notBoolean
  -- The value might mean a boolean but does not.
  | unreadBoolean
  | notPlainName (given : String)
deriving DecidableEq

namespace ValueProblem

def type : ValueProblem → String
  | notText => "string_type"
  | notList => "list_type"
  | notTable => "dict_type"
  | notBoolean => "bool_type"
  | unreadBoolean => "bool_parsing"
  | notPlainName _ => "value_error"

def message : ValueProblem → String
  | notText => "Input should be a valid string"
  | notList => "Input should be a valid list"
  | notTable => "Input should be a valid dictionary"
  | notBoolean => "Input should be a valid boolean"
  | unreadBoolean => "Input should be a valid boolean, unable to interpret input"
  | notPlainName given =>
      "Value error, Output root must be a plain directory name, got: '" ++ given ++ "'"

end ValueProblem

structure Issue where
  field : String
  item : Option Nat
  problem : ValueProblem
deriving DecidableEq

abbrev Checked (α : Type) := Except (List Issue) α

namespace Checked

variable {α β : Type}

def both : Checked α → Checked β → Checked (α × β)
  | .ok first, .ok second => .ok (first, second)
  | .ok _, .error later => .error later
  | .error issues, .ok _ => .error issues
  | .error issues, .error later => .error (issues ++ later)

def items (field : String) (check : Value → Except ValueProblem α) :
    Nat → List Value → Checked (List α)
  | _, [] => .ok []
  | index, value :: rest =>
      let first : Checked α := (check value).mapError fun problem => [⟨field, some index, problem⟩]
      (both first (items field check (index + 1) rest)).map fun (item, others) => item :: others

def field (fields : Entries) (name : String) (default : α) (check : Value → Checked α) :
    Checked α :=
  match fields.get? name with
  | some value => check value
  | none => .ok default

def one (name : String) (check : Value → Except ValueProblem α) (value : Value) : Checked α :=
  (check value).mapError fun problem => [⟨name, none, problem⟩]

def listOf (name : String) (check : Value → Except ValueProblem α) (value : Value) :
    Checked (List α) :=
  match value with
  | .list values => items name check 0 values
  | _ => .error [⟨name, none, .notList⟩]

end Checked

namespace Value

def toText : Value → Except ValueProblem String
  | text value => .ok value
  | _ => .error .notText

def toTable : Value → Except ValueProblem Entries
  | table entries => .ok entries
  | _ => .error .notTable

def booleanWord (word : String) : Option Bool :=
  let lowered := String.ofList (word.toList.map Char.toLower)
  if ["0", "off", "f", "false", "n", "no"].contains lowered then some false
  else if ["1", "on", "t", "true", "y", "yes"].contains lowered then some true
  else none

def isWhole (value : Float) : Bool :=
  value.floor == value && -9223372036854775808.0 < value && value < 9223372036854775808.0

-- Booleans may be written as words, and as the numbers zero and one. Another whole number within 64
-- bits might have meant one; a number beyond them or with a fraction never does.
def toBool : Value → Except ValueProblem Bool
  | bool value => .ok value
  | integer value =>
      if value = 0 then .ok false
      else if value = 1 then .ok true
      else if -0x8000000000000000 ≤ value ∧ value < 0x8000000000000000 then .error .unreadBoolean
      else .error .notBoolean
  | float value =>
      if value == 0.0 then .ok false
      else if value == 1.0 then .ok true
      else if isWhole value then .error .unreadBoolean
      else .error .notBoolean
  | text value =>
      match booleanWord value with
      | some meant => .ok meant
      | none => .error .unreadBoolean
  | _ => .error .notBoolean

end Value

end ScriptTyping
