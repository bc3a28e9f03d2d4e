import ScriptTyping.Rule.Basic
import ScriptTyping.Store.Statements
import ScriptTyping.Store.Walk

set_option autoImplicit false

namespace ScriptTyping

namespace Store

abbrev Rewriting := EStateM WalkFault (Store × Session)

namespace Rewriting

def look : Rewriting Store := fun (store, session) => .ok store (store, session)

def record (entry : Entry) : Rewriting Unit := fun (store, session) =>
  .ok () (store, session.record entry)

-- Of the faults of a store, only the missing brace can come up in a rule.
def edit {α : Type} (change : Editing α) : Rewriting α := fun (store, session) =>
  match change store with
  | .ok value after => .ok value (after, session)
  | .error _ after => .error .unopenedBlock (after, session)

def outcome : EStateM.Result WalkFault (Store × Session) Unit → LinkedOutcome Session
  | .ok () (store, session) => ⟨store, session, none⟩
  | .error fault (store, session) => ⟨store, session, some fault⟩

end Rewriting

open Rewriting

def kind (store : Store) (id : NodeId) : String := (store.label id).kind

def hasChild (store : Store) (id : NodeId) (slot : String) : Bool :=
  (store.child? id (some slot)).isSome

-- Inserts a new tree behind a child, and behind a mark that directly follows the child.
def insertBehind (parent child : NodeId) (mark : Option String) (tree : Node) : Editing Unit := do
  let index ← Editing.indexOf parent child
  let store ← get
  let marked := (store.children parent)[index + 1]?.any fun next => mark == some (store.kind next)
  let made ← Editing.make (.ofNode tree)
  Editing.insertAt parent (if marked then index + 2 else index + 1) made

namespace Markup

def handle (detector : Nat) (id : NodeId) : Rewriting Unit := do
  let (store, session) ← get
  unless session.hasFound detector do
    set (store, { session with marked := detector :: session.marked })
    record (.decision (store.kind id) "markup" "selects the .tsx output variant")

end Markup

namespace Declarations

def inferred (store : Store) (id : NodeId) : TypeHint :=
  match store.child? id (some "value") with
  | some value => .ofKind (store.kind value)
  | none => .unknown

def handle (id : NodeId) : Rewriting Unit := do
  let store ← look
  match store.child? id (some "name") with
  | none => return
  | some name =>
      if store.hasChild id "type" then
        record (.decision (store.sourceText name) "kept" "explicit annotation")
      else if ScriptTyping.Declarations.inLoopHeader (store.ancestors 2 id) then
        record (.decision (store.sourceText name) "skipped" "loop header")
      else
        edit (insertBehind id name (some "!") ((inferred store id).toNode (some "type")))
        let after ← look
        record (.edit (store.kind id) (store.sourceText id) (after.sourceText id))

end Declarations

namespace LoopHeaders

def isDeclaration (store : Store) (id : NodeId) : Bool :=
  store.kind id == "lexical_declaration" || store.kind id == "variable_declaration"

def header (store : Store) (id : NodeId) : List NodeId :=
  (store.children id).takeWhile fun child => (store.label child).slot != some "body"

-- The number of annotations that are taken off.
def stripDeclarators : List NodeId → Nat → Editing Nat
  | [], removed => return removed
  | declarator :: rest, removed => do
      let store ← get
      match store.child? declarator (some "type") with
      | none => stripDeclarators rest removed
      | some hint =>
          if store.kind declarator == "variable_declarator" then
            let _ ← Editing.remove declarator hint
            stripDeclarators rest (removed + 1)
          else stripDeclarators rest removed

def strip (id : NodeId) : List NodeId → Nat → Editing Nat
  | [], removed => return removed
  | child :: rest, removed => do
      let store ← get
      if store.kind child == "type_annotation" then
        let _ ← Editing.remove id child
        strip id rest (removed + 1)
      else if isDeclaration store child then
        let removed ← stripDeclarators (store.children child) removed
        strip id rest removed
      else strip id rest removed

def handle (id : NodeId) : Rewriting Unit := do
  let store ← look
  let children := header store id
  if store.hasChild id "kind" || children.any (isDeclaration store) then
    let removed ← edit (strip id children 0)
    if removed ≠ 0 then
      let after ← look
      record (.edit (store.kind id) (store.sourceText id) (after.sourceText id))

end LoopHeaders

namespace Imports

def quotedDrafts (lead : String) (quote : Char) (specifier : String) : List Draft :=
  [.mark quote.toString lead, .leaf "string_fragment" specifier "" none, .mark quote.toString ""]

def handle (id : NodeId) : Rewriting Unit := do
  let store ← look
  match store.child? id (some "source") with
  | none => return
  | some source =>
      if store.kind source != "string" then return
      else
        let text := store.sourceText source
        match text.toList with
        | [] => throw .emptySource
        | quote :: quoted =>
            let specifier := String.ofList quoted.dropLast
            let normalized := normalizeSpecifier specifier
            if normalized = specifier then
              record (.decision text "kept" "no recognized extension")
            else
              edit <| Editing.update fun store =>
                store.refill source (quotedDrafts (store.trivia source) quote normalized)
              let after ← look
              record (.specifier text (after.sourceText source))

end Imports

namespace Functions

open ScriptTyping.Functions (parameterKinds structuralKinds bindingKinds declarationKinds declaredKinds)

def namesOf (store : Store) (kinds : List String) (id : NodeId) : List String :=
  (((store.leaves id).map store.label).filter fun leaf => kinds.contains leaf.kind).filterMap (·.token)

def declaredBy (store : Store) (statement : NodeId) : List String :=
  if declarationKinds.contains (store.kind statement) then
    let declarators := (store.children statement).filter fun child =>
      store.kind child == "variable_declarator"
    let targets := (statement :: declarators).filterMap fun id => store.child? id (some "name")
    targets.flatMap (namesOf store declaredKinds)
  else []

def takenNames (store : Store) (id parameters : NodeId) : List String :=
  let bound := namesOf store bindingKinds parameters
  match store.child? id (some "body") with
  | some body =>
      if store.kind body == Bindings.blockKind then
        bound ++ (store.children body).flatMap (declaredBy store)
      else bound
  | none => bound

def parenthesizedDraft (bare : NodeId) (lead : String) : Draft :=
  .branch "formal_parameters"
    [.mark "(" lead, .branch "required_parameter" [.given bare] none, .mark ")" ""]
    (some "parameters")

def parenthesize (id bare : NodeId) : Editing NodeId := do
  let store ← get
  let lead := store.trivia bare
  Editing.update fun store => store.setTrivia bare ""
  let index ← Editing.remove id bare
  Editing.update fun store => store.setSlot bare (some "pattern")
  let parameters ← Editing.make (parenthesizedDraft bare lead)
  Editing.insertAt id index parameters
  return parameters

def parametersOf (id : NodeId) : Editing (Option NodeId) := do
  let store ← get
  match store.child? id (some "parameters"), store.child? id (some "parameter") with
  | some parameters, _ => return some parameters
  | none, none => return none
  | none, some bare => some <$> parenthesize id bare

def lowerPattern (parameter pattern : NodeId) (name : String) : Editing NodeId := do
  let store ← get
  let lead := store.trivia pattern
  let index ← Editing.remove parameter pattern
  let identifier ← Editing.make (.leaf "identifier" name lead (some "pattern"))
  Editing.insertAt parameter index identifier
  return identifier

def annotate (parameter pattern : NodeId) : Editing Unit :=
  insertBehind parameter pattern (some "?") (TypeHint.unknown.toNode (some "type"))

-- The statement takes over the pattern that the parameter loses.
def lower (parameter pattern : NodeId) (name : String) : Editing NodeId := do
  let identifier ← lowerPattern parameter pattern name
  annotate parameter identifier
  bindPattern pattern name

def annotateParameters (taken : List String) (canLower : Bool) :
    List NodeId → Nat → Rewriting (List NodeId)
  | [], _ => return []
  | parameter :: rest, number => do
      let store ← look
      match parameterKinds.contains (store.kind parameter), store.child? parameter (some "pattern") with
      | true, some pattern =>
          if store.hasChild parameter "type" then
            record (.decision (store.sourceText parameter) "kept" "explicit annotation")
            annotateParameters taken canLower rest number
          else if structuralKinds.contains (store.kind pattern) && canLower then
            let fresh := FreshNames.next taken number
            let statement ← edit (lower parameter pattern (FreshNames.name fresh))
            let after ← look
            record (.edit (store.kind parameter) (store.sourceText parameter) (after.sourceText parameter))
            let statements ← annotateParameters taken canLower rest (fresh + 1)
            return statement :: statements
          else
            edit (annotate parameter pattern)
            let after ← look
            record (.edit (store.kind parameter) (store.sourceText parameter) (after.sourceText parameter))
            annotateParameters taken canLower rest number
      | _, _ => annotateParameters taken canLower rest number

def resultless? (store : Store) (id : NodeId) : Option NodeId :=
  if store.kind id == "method_definition" then
    (store.child? id (some "name")).filter fun name =>
      store.sourceText name == "constructor" ||
        ((store.children id).takeWhile (· != name)).any fun child =>
          store.isLeaf child && store.kind child == "set"
  else none

def annotateResult (id parameters : NodeId) : Rewriting Unit := do
  let store ← look
  if store.hasChild id "return_type" then return
  else
    match resultless? store id with
    | some name => record (.decision (store.sourceText name) "skipped" "return type not allowed")
    | none =>
        edit (insertBehind id parameters none (TypeHint.unknown.toNode (some "return_type")))
        let shown := (← look).sourceText parameters
        record (.edit (store.kind id) shown (shown ++ ": any"))

def rebind (id : NodeId) : List NodeId → Editing Unit
  | [] => return
  | statements => do
      let block ← blockBody id
      prepend block statements

def handle (id : NodeId) : Rewriting Unit := do
  match ← edit (parametersOf id) with
  | none => return
  | some parameters =>
      let store ← look
      let taken := takenNames store id parameters
      let statements ←
        annotateParameters taken (store.hasChild id "body") (store.children parameters) 0
      edit (rebind id statements)
      annotateResult id parameters

end Functions

end Store

namespace Rule

def linked (number : Nat) : Rule → LinkedHandler Session
  | declarations => ⟨Declarations.handler.kinds, act Store.Declarations.handle⟩
  | loopHeaders => ⟨LoopHeaders.handler.kinds, act Store.LoopHeaders.handle⟩
  | functions => ⟨Functions.kinds, act Store.Functions.handle⟩
  | imports => ⟨Imports.handler.kinds, act Store.Imports.handle⟩
  | markup => ⟨Markup.kinds, act (Store.Markup.handle number)⟩
where
  act (handle : NodeId → Store.Rewriting Unit) (id : NodeId) (store : Store) (session : Session) :
      LinkedOutcome Session :=
    Store.Rewriting.outcome (handle id (store, session))

def linkedFrom (number : Nat) : List Rule → LinkedTable Session
  | [] => []
  | rule :: rest => rule.linked number :: linkedFrom (number + 1) rest

def linkedTable (rules : List Rule) : LinkedTable Session := linkedFrom 0 rules

end Rule

end ScriptTyping
