import ScriptTyping.Node.Basic
import ScriptTyping.Text.Quoted

set_option autoImplicit false

namespace ScriptTyping

inductive TypeHint where
  | unknown
  | number
  | string
  | boolean
  | unknownArray
  | unknownRecord
deriving DecidableEq

namespace TypeHint

def typeText : TypeHint → String
  | unknown => "any"
  | number => "number"
  | string => "string"
  | boolean => "boolean"
  | unknownArray => "any[]"
  | unknownRecord => "Record<string, any>"

def all : List TypeHint :=
  [unknown, number, string, boolean, unknownArray, unknownRecord]

def ofTypeText? (text : String) : Option TypeHint :=
  all.find? fun hint => hint.typeText == text

theorem ofTypeText?_typeText (hint : TypeHint) :
    ofTypeText? hint.typeText = some hint := by
  cases hint <;> decide

def unknownTypeText (text : String) : String := quoted text ++ " is not a valid AnnotationKind"

def name : TypeHint → String
  | unknown => "UNKNOWN"
  | number => "NUMBER"
  | string => "STRING"
  | boolean => "BOOLEAN"
  | unknownArray => "UNKNOWN_ARRAY"
  | unknownRecord => "UNKNOWN_RECORD"

def typeKind : TypeHint → String
  | unknown | number | string | boolean => "predefined_type"
  | unknownArray | unknownRecord => "type"

def ofKind (kind : String) : TypeHint :=
  match kind with
  | "number" => number
  | "string" => string
  | "true" | "false" => boolean
  | "array" => unknownArray
  | "object" => unknownRecord
  | _ => unknown

def infer (initializer : Option Node) : TypeHint :=
  match initializer with
  | some tree => ofKind tree.kind
  | none => unknown

def toNode (hint : TypeHint) (slot : Option String) : Node :=
  .branch "type_annotation"
    [.mark ":" "", .leaf hint.typeKind hint.typeText " " none] slot

theorem text_toNode (hint : TypeHint) (slot : Option String) :
    (hint.toNode slot).text = ": " ++ hint.typeText := by
  simp [toNode, Tree.branch, Tree.mark, Tree.leaf, Tree.text_branch, Tree.text_leaf,
    ← String.append_assoc]

end TypeHint

end ScriptTyping
