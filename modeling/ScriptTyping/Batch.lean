import ScriptTyping.Console
import ScriptTyping.Conversion
import ScriptTyping.Discovery
import ScriptTyping.Settings.Load
import ScriptTyping.Text.Lines
import ScriptTyping.Trace.Json

set_option autoImplicit false

namespace ScriptTyping

abbrev Grammar := String → ParseTree

inductive RunFault where
  | settings (fault : Settings.LoadFault)
  | files (fault : FileFault)
  | conversion (fault : Conversion.Fault)
  | outsideRoot

def RunFault.ofSearch : SearchFault → RunFault
  | .outsideRoot => .outsideRoot
  | .files fault => .files fault

abbrev Results := List (String × Conversion)

def Results.put (name : String) (result : Conversion) : Results → Results
  | [] => [(name, result)]
  | entry :: rest =>
      if entry.1 == name then (name, result) :: rest else entry :: put name result rest

structure Progress where
  files : FileSystem
  notices : Array Notice
  results : Results

namespace Progress

def tell (progress : Progress) (level : Level) (text : String) : Progress :=
  { progress with notices := progress.notices.push (.record level text) }

end Progress

structure Ran where
  progress : Progress
  fault : Option RunFault

namespace Batch

def sourceText (bytes : ByteArray) : Except Utf8.Fault String :=
  (Utf8.decode bytes).map unifyLineEnds

def undecodable (fault : Utf8.Fault) : Conversion :=
  { code := "", errors := ["Decode Error: " ++ fault.message], success := false
    hasMarkup := false, trace := .empty }

def convertBytes (grammar : Grammar) (bytes : ByteArray) : Except Conversion.Fault Conversion :=
  match sourceText bytes with
  | .error fault => .ok (undecodable fault)
  | .ok text => Conversion.run text (grammar text)

def joinErrors (errors : List String) : String := String.intercalate "; " errors

def traceEnding : String := ".trace.json"

def writeOutput (settings : Settings) (source output : Path) (conversion : Conversion)
    (progress : Progress) : Ran :=
  match progress.files.makeDirectories output.parent with
  | .error fault => ⟨progress, some (.files fault)⟩
  | .ok prepared =>
      match prepared.write output conversion.code.toUTF8 with
      | .error fault => ⟨{ progress with files := prepared }, some (.files fault)⟩
      | .ok written =>
          let told := { progress with files := written }.tell .success
            ("Converted: " ++ shownPath source.toText ++ " -> " ++ shownPath output.toText)
          if settings.trace then
            match written.write (output.withEnding traceEnding) conversion.trace.toJson.toUTF8 with
            | .error fault => ⟨told, some (.files fault)⟩
            | .ok traced => ⟨{ told with files := traced }, none⟩
          else ⟨told, none⟩

def finish (scope : Scope) (source : Path) (conversion : Conversion) (progress : Progress) : Ran :=
  if conversion.success then
    match scope.outputPath? source conversion.extension with
    | none => ⟨progress, some .outsideRoot⟩
    | some output => writeOutput scope.settings source output conversion progress
  else
    let reason := ConsoleMarkup.escape (joinErrors conversion.errors)
    ⟨progress.tell .error ("Failed: " ++ shownPath source.toText ++ ": " ++ reason), none⟩

def convertSource (grammar : Grammar) (scope : Scope) (source : Path) (progress : Progress) : Ran :=
  match progress.files.read source with
  | .error fault => ⟨progress, some (.files fault)⟩
  | .ok bytes =>
      match convertBytes grammar bytes with
      | .error fault => ⟨progress, some (.conversion fault)⟩
      | .ok conversion =>
          let ran := finish scope source conversion progress
          match ran.fault, source.relativeTo? scope.root with
          | some _, _ => ran
          | none, none => { ran with fault := some .outsideRoot }
          | none, some name =>
              let results := Results.put name.toText conversion ran.progress.results
              ⟨{ ran.progress with results }, none⟩

def convertFrom (grammar : Grammar) (scope : Scope) : Nat → List Path → Progress → Ran
  | 0, _, progress => ⟨progress, none⟩
  | _ + 1, [], progress => ⟨progress, none⟩
  | steps + 1, entry :: rest, progress =>
      match scope.visit progress.files entry with
      | .error fault => ⟨progress, some (.ofSearch fault)⟩
      | .ok .pass => convertFrom grammar scope steps rest progress
      | .ok (.descend entries) => convertFrom grammar scope steps (entries ++ rest) progress
      | .ok .take =>
          let ran := convertSource grammar scope entry progress
          match ran.fault with
          | some _ => ran
          | none => convertFrom grammar scope steps rest ran.progress

def convertAll (grammar : Grammar) (scope : Scope) (progress : Progress) : Ran :=
  let files := progress.files
  match files.isDirectory scope.input with
  | .error fault => ⟨progress, some (.files fault)⟩
  | .ok true =>
      convertFrom grammar scope (Scope.stepBudget files) (scope.startEntries files) progress
  | .ok false => convertSource grammar scope scope.input progress

def reportRow (entry : String × Conversion) : ReportRow :=
  let errors := entry.2.errors
  let issues := if errors.isEmpty then "Unknown Error" else joinErrors errors
  ⟨ConsoleMarkup.escape entry.1, ConsoleMarkup.escape issues⟩

def summary (results : Results) : List Notice :=
  let total := results.length
  let failed := results.filter fun entry => !entry.2.success
  let successes := total - failed.length
  if total = 0 then [.record .warning "No convertible files found."]
  else if failed.isEmpty then
    [.record .success ("Batch Complete: " ++ toString successes ++ "/" ++ toString total ++
      " files converted.")]
  else
    [.report (failed.map reportRow),
     .line ("\n[bold]Summary:[/bold] " ++ toString successes ++ " Converted, " ++
       toString failed.length ++ " Failed.")]

structure Request where
  input : Path
  overrides : Overrides

inductive Ending where
  | exit (code : Nat)
  | fault (fault : RunFault)

structure Run where
  files : FileSystem
  notices : Array Notice
  ending : Ending

def invalidSettings (issues : List Issue) : String :=
  let count := issues.length
  let noun := if count = 1 then " validation error" else " validation errors"
  "Invalid configuration: " ++ toString count ++ noun ++ " for ConverterConfig"

def announce (scope : Scope) (progress : Progress) : Progress :=
  match progress.files.isDirectory scope.input with
  | .ok true =>
      progress.tell .info ("Converting " ++ shownPath scope.input.toText ++ " into " ++
        shownPath scope.outDir.toText)
  | _ => progress

def runScope (grammar : Grammar) (files : FileSystem) (scope : Scope) : Run :=
  let ran := convertAll grammar scope (announce scope ⟨files, #[], []⟩)
  match ran.fault with
  | some fault => ⟨ran.progress.files, ran.progress.notices, .fault fault⟩
  | none =>
      let notices := ran.progress.notices ++ (summary ran.progress.results).toArray
      ⟨ran.progress.files, notices, .exit 0⟩

-- The settings for a request. They are searched for from a directory itself, or from the one that
-- holds a file.
def loadSettings (files : FileSystem) (request : Request) : Except Settings.LoadFault Settings :=
  match files.isDirectory request.input with
  | .error fault => .error (.files fault)
  | .ok true => Settings.load files request.input request.overrides
  | .ok false => Settings.load files request.input.parent request.overrides

def run (grammar : Grammar) (files : FileSystem) (request : Request) : Run :=
  match loadSettings files request with
  | .error (.invalid issues) =>
      ⟨files, #[.record .error (invalidSettings issues)], .exit 1⟩
  | .error fault => ⟨files, #[], .fault (.settings fault)⟩
  | .ok settings =>
      match Scope.resolve files request.input settings with
      | .error (.files fault) => ⟨files, #[], .fault (.files fault)⟩
      | .error (.unsupported unsupported) =>
          let reason := ConsoleMarkup.escape (aboutPath request.input unsupported.reason)
          ⟨files, #[.record .warning ("Skipped: " ++ reason)], .exit 0⟩
      | .ok scope => runScope grammar files scope

end Batch

end ScriptTyping
