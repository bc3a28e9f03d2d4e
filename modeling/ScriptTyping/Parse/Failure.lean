import ScriptTyping.Parse.Basic
import ScriptTyping.Text.Blank
import ScriptTyping.Text.Lines
import ScriptTyping.Text.Quoted
import ScriptTyping.Text.Utf8

set_option autoImplicit false

namespace ScriptTyping

inductive Problem where
  | missing (kind : String)
  | unexpectedNear (snippet : String)
  | unexpected
deriving DecidableEq

def Problem.message : Problem → String
  | missing kind => "Missing " ++ quoted kind
  | unexpectedNear snippet => "Unexpected syntax near " ++ quoted snippet
  | unexpected => "Unexpected syntax"

def located (message : String) (line column : Option Int) : String :=
  match line with
  | none => message
  | some line =>
      let column := match column with
        | some column => toString column
        | none => "None"
      message ++ " (" ++ toString line ++ ":" ++ column ++ ")"

structure ParseFailure where
  problem : Problem
  position : Position
deriving DecidableEq

def ParseFailure.message (failure : ParseFailure) : String :=
  located failure.problem.message (some failure.position.line) (some failure.position.column)

def ParseLabel.isDamaged (label : ParseLabel) : Bool := label.isError || label.isMissing

-- The first damaged node of the pending trees in preorder. Only nodes that are marked to have
-- damage below them are searched.
def firstDamagedOf (pending : List ParseTree) : Option ParseLabel :=
  match pending with
  | [] => none
  | .node label children :: rest =>
      if label.isDamaged then some label
      else if label.hasError then firstDamagedOf (children ++ rest)
      else firstDamagedOf rest
termination_by Tree.sizeAll pending
decreasing_by
  all_goals
    simp only [Tree.sizeAll, Tree.size, Tree.sizeAll_append]
    omega

def culprit (tree : ParseTree) : ParseLabel := (firstDamagedOf [tree]).getD tree.label

def snippetLength : Nat := 40

def snippet (source : ByteArray) (label : ParseLabel) : String :=
  let shown := stripBlank (Utf8.decodeLenient (source.extract label.start label.stop)).toList
  String.ofList ((firstLine shown).take snippetLength)

def problemAt (source : ByteArray) (label : ParseLabel) : Problem :=
  if label.isMissing then .missing label.kind
  else
    let near := snippet source label
    if near.isEmpty then .unexpected else .unexpectedNear near

def describeDamage (source : ByteArray) (tree : ParseTree) : ParseFailure :=
  let found := culprit tree
  ⟨problemAt source found, positionAt source found.start⟩

end ScriptTyping
