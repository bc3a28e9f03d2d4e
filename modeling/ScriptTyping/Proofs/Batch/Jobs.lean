import ScriptTyping.Batch
import ScriptTyping.Proofs.Discovery.Listing

set_option autoImplicit false

namespace ScriptTyping

open FileSystem

namespace Path

def stem (name : String) : String := String.ofList (splitName name.toList).1

theorem mem_splitName {name : List Char} {c : Char} (member : c ∈ (splitName name).1) : c ∈ name := by
  simp only [splitName] at member
  split at member
  next => exact member
  next => exact List.mem_of_mem_take member

theorem name_below (path : Path) {names : List String} (some : names ≠ []) :
    (path.below names).name = names.getLastD "" := by
  simp only [below, append, name, List.getLastD_eq_getLast?]
  rw [List.getLast?_append_of_ne_nil _ some]

theorem withExtension?_below (path : Path) {names : List String} (some : names ≠ [])
    {extension : String} (fits : isExtension extension = true) :
    (path.below names).withExtension? extension =
      Option.some (path.below (names.dropLast ++ [stem (names.getLastD "") ++ extension])) := by
  have whole : (path.below names).parts.isEmpty = false := by simp [below, append, some]
  simp only [withExtension?, fits, whole, name_below path some, Bool.not_true, Bool.or_self,
    Bool.false_eq_true, if_false, stem]
  simp [below, append, List.dropLast_append_of_ne_nil some]

theorem withEnding_below (path : Path) (above : List String) (last ending : String) :
    (path.below (above ++ [last])).withEnding ending = path.below (above ++ [last ++ ending]) := by
  simp [withEnding, below, append, name]

end Path

theorem isExtension_outputExtension (hasMarkup : Bool) :
    Path.isExtension (outputExtension hasMarkup) = true := by
  cases hasMarkup <;> decide

theorem isName_append {name ending : String} (named : IsName name) (whole : '/' ∉ ending.toList)
    (last : ending.toList.getLast? ≠ some '.') (some : ending.toList ≠ []) :
    IsName (Path.stem name ++ ending) where
  ahead := by
    intro same
    have chars := congrArg (fun text => text.toList.getLast?) same
    simp only [String.toList_append, List.getLast?_append_of_ne_nil _ some] at chars
    exact last (chars.trans (by decide))
  whole := by
    simp only [String.toList_append, List.mem_append, Path.stem, String.toList_ofList, not_or]
    exact ⟨fun member => named.whole (Path.mem_splitName member), whole⟩

namespace Batch

structure Job where
  names : List String
  conversion : Conversion

namespace Job

variable (scope : Scope) (job : Job)

def source : Path := scope.root.below job.names

def outputName : String := Path.stem (job.names.getLastD "") ++ job.conversion.extension

def outputNames : List String := job.names.dropLast ++ [job.outputName]

def traceNames : List String := job.names.dropLast ++ [job.outputName ++ traceEnding]

def output : Path := scope.root.below (scope.settings.outRoot :: job.outputNames)

def traceOutput : Path := scope.root.below (scope.settings.outRoot :: job.traceNames)

def code : ByteArray := job.conversion.code.toUTF8

def traceText : ByteArray := job.conversion.trace.toJson.toUTF8

def deliver (files : FileSystem) : Except FileFault FileSystem :=
  if job.conversion.success then do
    let prepared ← files.makeDirectories (job.output scope).parent
    let written ← prepared.write (job.output scope) job.code
    if scope.settings.trace then written.write (job.traceOutput scope) job.traceText
    else return written
  else return files

def notice : Notice :=
  if job.conversion.success then
    .record .success ("Converted: " ++ shownPath (job.source scope).toText ++ " -> " ++
      shownPath (job.output scope).toText)
  else
    .record .error ("Failed: " ++ shownPath (job.source scope).toText ++ ": " ++
      ConsoleMarkup.escape (joinErrors job.conversion.errors))

def key : String := (Path.mk "" job.names).toText

def advance (files : FileSystem) (progress : Progress) : Progress where
  files
  notices := progress.notices.push (job.notice scope)
  results := Results.put job.key job.conversion progress.results

end Job

variable {grammar : Grammar} {scope : Scope} {files now next : FileSystem} {home : Location}
  {job : Job} {names : List String} {progress : Progress} {bytes : ByteArray}
  {conversion : Conversion}

-- Converts a source of which it is known what reading it yields.
def convertContents (grammar : Grammar) (scope : Scope) (source : Path)
    (contents : Except FileFault ByteArray) (progress : Progress) : Ran :=
  match contents with
  | .error fault => ⟨progress, some (.files fault)⟩
  | .ok bytes =>
      match convertBytes grammar bytes with
      | .error fault => ⟨progress, some (.conversion fault)⟩
      | .ok conversion =>
          let ran := finish scope source conversion progress
          match ran.fault, source.relativeTo? scope.root with
          | some _, _ => ran
          | none, none => { ran with fault := some .outsideRoot }
          | none, some name =>
              let results := Results.put name.toText conversion ran.progress.results
              ⟨{ ran.progress with results }, none⟩

theorem convertSource_eq (grammar : Grammar) (scope : Scope) (source : Path)
    (progress : Progress) :
    convertSource grammar scope source progress =
      convertContents grammar scope source (progress.files.read source) progress := rfl

theorem outputPath?_extended (scope : Scope) (some : names ≠ []) {extension : String}
    (fits : Path.isExtension extension = true) :
    scope.outputPath? (scope.root.below names) extension =
      Option.some (scope.root.below (scope.settings.outRoot :: (names.dropLast ++
        [Path.stem (names.getLastD "") ++ extension]))) := by
  have moved : scope.outDir.append ⟨"", names⟩ =
      scope.root.below (scope.settings.outRoot :: names) := by
    simp [Scope.outDir, Path.child, Path.append, Path.below]
  have last : (scope.settings.outRoot :: names).getLastD "" = names.getLastD "" := by
    simp [List.getLastD_eq_getLast?, List.getLast?_cons, List.getLast?_eq_some_getLast some]
  simp only [Scope.outputPath?, Path.relativeTo?_below, Option.bind_some, moved]
  rw [Path.withExtension?_below _ (by simp) fits, last, List.dropLast_cons_of_ne_nil some,
    List.cons_append]

theorem outputPath?_below (scope : Scope) (some : names ≠ []) (conversion : Conversion) :
    scope.outputPath? (scope.root.below names) conversion.extension =
      Option.some (Job.output scope ⟨names, conversion⟩) :=
  outputPath?_extended scope some (isExtension_outputExtension _)

theorem output_parent (scope : Scope) (job : Job) :
    (job.output scope).parent = scope.root.below (scope.settings.outRoot :: job.names.dropLast) := by
  rw [Job.output, Path.parent_below _ (by simp), Job.outputNames, ← List.cons_append,
    List.dropLast_concat]

theorem output_withEnding (scope : Scope) (job : Job) :
    (job.output scope).withEnding traceEnding = job.traceOutput scope := by
  rw [Job.output, Job.outputNames, ← List.cons_append, Path.withEnding_below]
  rfl

theorem deliver_ok (success : job.conversion.success = true) :
    job.deliver scope files = .ok next ↔
      ∃ prepared written, files.makeDirectories (job.output scope).parent = .ok prepared ∧
        prepared.write (job.output scope) job.code = .ok written ∧
        (if scope.settings.trace then written.write (job.traceOutput scope) job.traceText
          else .ok written) = .ok next := by
  simp only [Job.deliver, success, if_true, bind, Except.bind, pure, Except.pure]
  cases files.makeDirectories (job.output scope).parent with
  | error fault => simp
  | ok prepared =>
      cases written : prepared.write (job.output scope) job.code <;> simp [written]

theorem deliver_failed (scope : Scope) (files : FileSystem)
    (failed : job.conversion.success = false) :
    job.deliver scope files = .ok files := by
  simp [Job.deliver, failed, pure, Except.pure]

theorem writeOutput_ok (success : job.conversion.success = true)
    (delivers : job.deliver scope progress.files = .ok next) :
    writeOutput scope.settings (job.source scope) (job.output scope) job.conversion progress =
      ⟨⟨next, progress.notices.push (job.notice scope), progress.results⟩, none⟩ := by
  obtain ⟨prepared, written, made, output, traced⟩ := (deliver_ok success).mp delivers
  simp only [Job.code, Job.traceText] at output traced
  simp only [writeOutput, made, output, output_withEnding, Job.notice, success, if_true,
    Progress.tell]
  split at traced
  next traces => simp only [traces, if_true, traced]
  next silent =>
    obtain rfl := Except.ok.inj traced
    simp only [silent, Bool.false_eq_true, if_false]

theorem convertContents_ok (some : job.names ≠ [])
    (converts : convertBytes grammar bytes = .ok job.conversion)
    (delivers : job.deliver scope progress.files = .ok next) :
    convertContents grammar scope (job.source scope) (.ok bytes) progress =
      ⟨job.advance scope next progress, none⟩ := by
  have placed : scope.outputPath? (job.source scope) job.conversion.extension =
      Option.some (job.output scope) := outputPath?_below scope some job.conversion
  have seen : (job.source scope).relativeTo? scope.root = Option.some ⟨"", job.names⟩ :=
    Path.relativeTo?_below ..
  simp only [convertContents, converts, finish, placed, seen]
  cases success : job.conversion.success with
  | true =>
      simp only [if_true, writeOutput_ok success delivers]
      rfl
  | false =>
      rw [deliver_failed _ _ success] at delivers
      obtain rfl := Except.ok.inj delivers
      simp [Job.advance, Job.notice, success, Progress.tell, Job.key]

theorem convertContents_error (some : job.names ≠ []) {fault : FileFault}
    (converts : convertBytes grammar bytes = .ok job.conversion)
    (stops : job.deliver scope progress.files = .error fault) :
    (convertContents grammar scope (job.source scope) (.ok bytes) progress).fault =
      Option.some (.files fault) := by
  have placed : scope.outputPath? (job.source scope) job.conversion.extension =
      Option.some (job.output scope) := outputPath?_below scope some job.conversion
  simp only [convertContents, converts, finish, placed]
  cases success : job.conversion.success with
  | false => simp [deliver_failed _ _ success] at stops
  | true =>
      simp only [if_true]
      suffices ended : (writeOutput scope.settings (job.source scope) (job.output scope)
          job.conversion progress).fault = Option.some (.files fault) by
        simp only [ended]
      simp only [Job.deliver, success, if_true, bind, Except.bind, pure, Except.pure, Job.code,
        Job.traceText] at stops
      simp only [writeOutput, output_withEnding]
      cases made : progress.files.makeDirectories (job.output scope).parent with
      | error => simpa [made] using stops
      | ok prepared =>
          simp only [made] at stops ⊢
          cases written : prepared.write (job.output scope) job.conversion.code.toUTF8 with
          | error => simpa only [written, Except.error.injEq, Option.some.injEq,
              RunFault.files.injEq] using stops
          | ok reached =>
              simp only [written] at stops ⊢
              split at stops
              next traces => simp only [traces, if_true, stops]
              next => simp at stops

end Batch

end ScriptTyping
