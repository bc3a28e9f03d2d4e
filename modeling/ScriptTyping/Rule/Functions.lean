import ScriptTyping.TypeHint
import ScriptTyping.Rule.Bindings
import ScriptTyping.Rule.FreshNames
import ScriptTyping.Rule.Session

set_option autoImplicit false

namespace ScriptTyping.Functions

def kinds : List String :=
  ["function_declaration", "function_expression", "function", "generator_function_declaration",
   "generator_function", "arrow_function", "method_definition"]

def parameterKinds : List String := ["required_parameter", "optional_parameter"]

def structuralKinds : List String := ["object_pattern", "array_pattern"]

def bindingKinds : List String := ["identifier", "shorthand_property_identifier_pattern"]

def declarationKinds : List String :=
  ["lexical_declaration", "variable_declaration", "function_declaration",
   "generator_function_declaration", "class_declaration"]

-- The kinds of tokens that are declared names; a class has a type's name.
def declaredKinds : List String := bindingKinds ++ ["type_identifier"]

def namesOf (kinds : List String) (tree : Node) : List String :=
  (tree.leaves.filter fun leaf => kinds.contains leaf.kind).filterMap (·.token)

def declaredBy (statement : Node) : List String :=
  if declarationKinds.contains statement.kind then
    let declarators := statement.children.filter fun child => child.kind == "variable_declarator"
    let targets := (statement :: declarators).filterMap (·.child? "name")
    targets.flatMap (namesOf declaredKinds)
  else []

def takenNames (tree parameters : Node) : List String :=
  let bound := namesOf bindingKinds parameters
  match tree.child? "body" with
  | some body =>
      if body.kind == Bindings.blockKind then bound ++ body.children.flatMap declaredBy
      else bound
  | none => bound

def parenthesized (bare : Node) : Node :=
  .branch "formal_parameters"
    [.mark "(" bare.trivia,
     .branch "required_parameter" [(bare.withTrivia "").withSlot (some "pattern")] none,
     .mark ")" ""] (some "parameters")

def withParameters? (tree : Node) : Option Node :=
  if tree.hasChild "parameters" then some tree
  else if tree.hasChild "parameter" then
    some (tree.withChildren (Children.modify "parameter" parenthesized tree.children))
  else none

def annotateParameter (parameter : Node) : Node :=
  let hint := TypeHint.unknown.toNode (some "type")
  parameter.withChildren
    (Children.insertAfterMarked "pattern" "?" hint parameter.children)

def renamed (name : String) (parameter : Node) : Node :=
  parameter.withChildren
    (Children.modify "pattern"
      (fun pattern => .leaf "identifier" name pattern.trivia (some "pattern"))
      parameter.children)

inductive Change where
  | pass
  | keep
  | annotate
  | lower (pattern : Node)

def changeOf (canLower : Bool) (child : Node) : Change :=
  if !parameterKinds.contains child.kind then .pass
  else
    match child.child? "pattern" with
    | none => .pass
    | some pattern =>
        if child.hasChild "type" then .keep
        else if structuralKinds.contains pattern.kind && canLower then .lower pattern
        else .annotate

structure Signature where
  children : List Node
  bindings : List Node
  session : Session

-- Annotates the children of a parameter list from left to right. The number of the next synthetic
-- name to try is passed along.
def annotateParameters (taken : List String) (canLower : Bool) :
    List Node → Nat → Session → Signature
  | [], _, session => ⟨[], [], session⟩
  | child :: rest, number, session =>
      match changeOf canLower child with
      | .pass =>
          let after := annotateParameters taken canLower rest number session
          { after with children := child :: after.children }
      | .keep =>
          let noted :=
            session.record (.decision child.sourceText "kept" "explicit annotation")
          let after := annotateParameters taken canLower rest number noted
          { after with children := child :: after.children }
      | .annotate =>
          let changed := annotateParameter child
          let noted := session.record (.edit child.kind child.sourceText changed.sourceText)
          let after := annotateParameters taken canLower rest number noted
          { after with children := changed :: after.children }
      | .lower pattern =>
          let fresh := FreshNames.next taken number
          let name := FreshNames.name fresh
          let changed := annotateParameter (renamed name child)
          let noted := session.record (.edit child.kind child.sourceText changed.sourceText)
          let after := annotateParameters taken canLower rest (fresh + 1) noted
          { after with
            children := changed :: after.children
            bindings := Bindings.statement pattern name :: after.bindings }

def withBindings? (bindings : List Node) (tree : Node) : Option Node :=
  match bindings, tree.child? "body" with
  | [], _ => some tree
  | _, none => none
  | _, some body =>
      (Bindings.prepend? (Bindings.asBlock body) bindings).map fun block =>
        tree.withChildren (Children.replace "body" block tree.children)

def resultless? (tree : Node) : Option Node :=
  if tree.kind == "method_definition" then
    (tree.child? "name").filter fun name =>
      name.sourceText == "constructor" ||
        (tree.children.takeWhile fun child => !Children.inSlot "name" child).any fun child =>
          child.isLeaf && child.kind == "set"
  else none

def annotateResult (tree parameters : Node) (session : Session) : Node × Session :=
  if tree.hasChild "return_type" then (tree, session)
  else
    match resultless? tree with
    | some name =>
        (tree, session.record (.decision name.sourceText "skipped" "return type not allowed"))
    | none =>
        let hint := TypeHint.unknown.toNode (some "return_type")
        let shown := parameters.sourceText
        (tree.withChildren (Children.insertAfter "parameters" hint tree.children),
          session.record (.edit tree.kind shown (shown ++ ": any")))

def handle (_ : List Label) (tree : Node) (session : Session) : Outcome Session :=
  match withParameters? tree with
  | none => ⟨tree, session, none⟩
  | some tree =>
      match tree.child? "parameters" with
      | none => ⟨tree, session, none⟩
      | some parameters =>
          let signature := annotateParameters (takenNames tree parameters) (tree.hasChild "body")
            parameters.children 0 session
          let parameters := parameters.withChildren signature.children
          let tree :=
            tree.withChildren (Children.replace "parameters" parameters tree.children)
          match withBindings? signature.bindings tree with
          | none => ⟨tree, signature.session, some .unopenedBlock⟩
          | some tree =>
              let (tree, session) := annotateResult tree parameters signature.session
              ⟨tree, session, none⟩

def handler : Handler Session := ⟨kinds, handle⟩

end ScriptTyping.Functions
