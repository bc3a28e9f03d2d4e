import ScriptTyping.Node.Edit
import ScriptTyping.Rule.Declarations

set_option autoImplicit false

namespace ScriptTyping.LoopHeaders

def isDeclaration (tree : Node) : Bool :=
  tree.kind == "lexical_declaration" || tree.kind == "variable_declaration"

def isTypeHint (tree : Node) : Bool := tree.kind == "type_annotation"

def isDeclarator (tree : Node) : Bool := tree.kind == "variable_declarator"

def header (children : List Node) : List Node :=
  children.takeWhile fun child => !Children.inSlot "body" child

def afterHeader (children : List Node) : List Node :=
  children.dropWhile fun child => !Children.inSlot "body" child

def declares (tree : Node) : Bool :=
  tree.hasChild "kind" || (header tree.children).any isDeclaration

def stripDeclarator (tree : Node) : Node :=
  if isDeclarator tree then tree.withChildren (Children.erase "type" tree.children) else tree

def strip (child : Node) : Option Node :=
  if isTypeHint child then none
  else if isDeclaration child then
    some (child.withChildren (child.children.map stripDeclarator))
  else some child

def loses (child : Node) : Bool :=
  isTypeHint child ||
    (isDeclaration child &&
      child.children.any fun declarator => isDeclarator declarator && declarator.hasChild "type")

def sanitize (tree : Node) : Node :=
  tree.withChildren ((header tree.children).filterMap strip ++ afterHeader tree.children)

def handle (_ : List Label) (tree : Node) (session : Session) : Outcome Session :=
  if !declares tree then ⟨tree, session, none⟩
  else
    let changed := sanitize tree
    if (header tree.children).any loses then
      ⟨changed, session.record (.edit tree.kind tree.sourceText changed.sourceText), none⟩
    else ⟨changed, session, none⟩

def handler : Handler Session := ⟨[Declarations.iterationKind], handle⟩

end ScriptTyping.LoopHeaders
