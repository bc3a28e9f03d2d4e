import ScriptTyping.Node.Edit
import ScriptTyping.Rule.Session

set_option autoImplicit false

namespace ScriptTyping

def sourceExtensions : List String := [".js", ".jsx", ".ts", ".tsx"]

def beforeEnding? (ending chars : List Char) : Option (List Char) :=
  if ending.isSuffixOf chars then some (chars.take (chars.length - ending.length)) else none

def normalizeSpecifier (specifier : String) : String :=
  let chars := specifier.toList
  match sourceExtensions.findSome? fun extension => beforeEnding? extension.toList chars with
  | some shorter => String.ofList shorter
  | none => specifier

namespace Imports

def quotedTokens (lead : String) (quote : Char) (specifier : String) : List Node :=
  [.mark quote.toString lead, .leaf "string_fragment" specifier "" none, .mark quote.toString ""]

def handle (_ : List Label) (tree : Node) (session : Session) : Outcome Session :=
  match tree.child? "source" with
  | none => ⟨tree, session, none⟩
  | some source =>
      if source.kind != "string" then ⟨tree, session, none⟩
      else
        let text := source.sourceText
        match text.toList with
        | [] => ⟨tree, session, some .emptySource⟩
        | quote :: quoted =>
            let specifier := String.ofList quoted.dropLast
            let normalized := normalizeSpecifier specifier
            if normalized = specifier then
              ⟨tree, session.record (.decision text "kept" "no recognized extension"), none⟩
            else
              let changed := source.withChildren (quotedTokens source.trivia quote normalized)
              ⟨tree.withChildren (Children.replace "source" changed tree.children),
                session.record (.specifier text changed.sourceText), none⟩

def handler : Handler Session := ⟨["import_statement", "export_statement"], handle⟩

end Imports

end ScriptTyping
