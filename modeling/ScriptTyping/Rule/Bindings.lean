import ScriptTyping.Node.Edit

set_option autoImplicit false

namespace ScriptTyping.Bindings

-- `const pattern = name;`
def statement (pattern : Node) (name : String) : Node :=
  .branch "lexical_declaration"
    [.leaf "const" "const" "" (some "kind"),
     .branch "variable_declarator"
       [(pattern.withSlot (some "name")).withTrivia " ",
        .mark "=" " ",
        .leaf "identifier" name " " (some "value")] none,
     .mark ";" ""] none

def blockKind : String := "statement_block"

-- A block that returns the expression; the brace takes over what stood in front of it.
def returning (expression : Node) : Node :=
  .branch blockKind
    [.mark "\x7b" expression.trivia,
     .branch "return_statement"
       [.mark "return" " ", (expression.withSlot none).withTrivia " ", .mark ";" ""] none,
     .mark "\x7d" " "] (some "body")

def asBlock (body : Node) : Node := if body.kind == blockKind then body else returning body

-- What stands in front of a new statement, by what stands in front of the one that follows it: a
-- line break keeps only the last line's indentation, and there is at least a space.
def indentLike (trivia : String) : String :=
  let chars := trivia.toList
  if chars.contains '\n' then
    String.ofList ('\n' :: (chars.reverse.takeWhile (· != '\n')).reverse)
  else if chars.isEmpty then " "
  else trivia

def indentBefore : List Node → String
  | [] => " "
  | following :: _ => if following.kind == "\x7d" then " " else indentLike following.trivia

def setOff : List Node → List Node
  | [] => []
  | following :: rest =>
      if following.kind == "\x7d" && following.label.lead.isEmpty then
        .node { following.label with lead := " " } following.children :: rest
      else following :: rest

-- Inserts statements after the first opening brace, in order. Without a brace there is no place.
def insertAfterBrace? (statements : List Node) : List Node → Option (List Node)
  | [] => none
  | child :: rest =>
      if child.kind == "\x7b" then
        let indent := indentBefore rest
        some (child :: (statements.map (Tree.withTrivia indent) ++ setOff rest))
      else (insertAfterBrace? statements rest).map (child :: ·)

def prepend? (block : Node) (statements : List Node) : Option Node :=
  (insertAfterBrace? statements block.children).map block.withChildren

end ScriptTyping.Bindings
