import ScriptTyping.Parse.Hydrate
import ScriptTyping.Rule.Basic

set_option autoImplicit false

namespace ScriptTyping

def outputExtension (hasMarkup : Bool) : String := if hasMarkup then ".tsx" else ".ts"

structure Conversion where
  -- The converted text, or the source when the conversion failed.
  code : String
  errors : List String
  success : Bool
  hasMarkup : Bool
  trace : Trace

namespace Conversion

def hasErrors (conversion : Conversion) : Bool := !conversion.errors.isEmpty

def extension (conversion : Conversion) : String := outputExtension conversion.hasMarkup

-- Why there is no result at all. Neither cause arises for a parser's own answer.
inductive Fault where
  | undecodable (fault : Utf8.Fault)
  | walk (fault : WalkFault)

def detector : Nat := 4

def transform (trace : Trace) (tree : Node) : Except Fault Conversion :=
  let transforming := trace.enter "Transforming" "Single Traversal"
  let outcome := Rule.walk Rule.all tree (.start transforming)
  match outcome.fault with
  | some fault => .error (.walk fault)
  | none =>
      let walked := outcome.state.trace.leave trace.nextId
      let printing := walked.enter "Printing" "Syntax Tree -> Source Text"
      let code := outcome.tree.text
      let printed := printing.leave walked.nextId
      .ok
        { code, errors := [], success := true
          hasMarkup := outcome.state.hasFound detector
          trace := printed }

def run (source : String) (parse : ParseTree) : Except Fault Conversion :=
  let trace := Trace.empty.enter "Conversion Pipeline" "JavaScript -> TypeScript"
  let pipeline := Trace.empty.nextId
  let parsing := trace.enter "Parsing" "Source Text -> Syntax Tree"
  match readParse source parse with
  | .error (.undecodable fault) => .error (.undecodable fault)
  | .error (.malformed failure) =>
      let error := "Parse Error: " ++ failure.message
      let failed := (parsing.record (.error error)).leave trace.nextId
      .ok
        { code := source, errors := [error], success := false, hasMarkup := false
          trace := failed.leave pipeline }
  | .ok tree =>
      match transform (parsing.leave trace.nextId) tree with
      | .error fault => .error fault
      | .ok conversion => .ok { conversion with trace := conversion.trace.leave pipeline }

def code? (conversion : Conversion) : Except String String :=
  if conversion.success then .ok conversion.code
  else .error ("Conversion failed:\n" ++ String.intercalate "\n" conversion.errors)

def extension? (conversion : Conversion) : Except String String :=
  if conversion.success then .ok conversion.extension
  else .error (String.intercalate "\n" conversion.errors)

end Conversion

end ScriptTyping
