import ScriptTyping.Rule.Session

set_option autoImplicit false

namespace ScriptTyping.Markup

def kinds : List String := ["jsx_element", "jsx_self_closing_element", "jsx_fragment"]

def handle (detector : Nat) (_ : List Label) (tree : Node) (session : Session) :
    Outcome Session :=
  if session.hasFound detector then ⟨tree, session, none⟩
  else
    let noted := { session with marked := detector :: session.marked }
    ⟨tree, noted.record (.decision tree.kind "markup" "selects the .tsx output variant"), none⟩

def handler (detector : Nat) : Handler Session := ⟨kinds, handle detector⟩

end ScriptTyping.Markup
