import ScriptTyping.TypeHint
import ScriptTyping.Node.Edit
import ScriptTyping.Rule.Session

set_option autoImplicit false

namespace ScriptTyping.Declarations

def iterationKind : String := "for_in_statement"

def inLoopHeader : List Label → Bool
  | declaration :: statement :: _ =>
      statement.kind == iterationKind && declaration.slot != some "body"
  | _ => false

-- The annotation stands after the name, and after the mark of a definite assignment.
def annotate (tree : Node) : Node :=
  let hint := (TypeHint.infer (tree.child? "value")).toNode (some "type")
  tree.withChildren (Children.insertAfterMarked "name" "!" hint tree.children)

def handle (ancestors : List Label) (tree : Node) (session : Session) : Outcome Session :=
  match tree.child? "name" with
  | none => ⟨tree, session, none⟩
  | some name =>
      if tree.hasChild "type" then
        ⟨tree, session.record (.decision name.sourceText "kept" "explicit annotation"), none⟩
      else if inLoopHeader ancestors then
        ⟨tree, session.record (.decision name.sourceText "skipped" "loop header"), none⟩
      else
        let changed := annotate tree
        ⟨changed, session.record (.edit tree.kind tree.sourceText changed.sourceText), none⟩

def handler : Handler Session := ⟨["variable_declarator"], handle⟩

end ScriptTyping.Declarations
