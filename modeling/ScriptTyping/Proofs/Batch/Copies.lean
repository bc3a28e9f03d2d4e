import ScriptTyping.Proofs.Batch.Containment
import ScriptTyping.Proofs.Rule.Accounting
import ScriptTyping.Proofs.Text.Lines

set_option autoImplicit false

namespace ScriptTyping

namespace Conversion

open Rule

variable {source : String} {parse : ParseTree} {conversion : Conversion}

theorem success_of_run (undamaged : parse.label.hasError = false)
    (completes : run source parse = .ok conversion) : conversion.success = true := by
  unfold run at completes
  dsimp only at completes
  split at completes
  next => cases completes
  next failure malformed => exact absurd malformed (readParse_ne_malformed undamaged failure)
  next tree _ =>
    split at completes
    next => cases completes
    next transformed same =>
      cases completes
      unfold transform at same
      dsimp only at same
      split at same
      next => cases same
      next =>
        cases same
        rfl

theorem accounts_of_run (undamaged : parse.label.hasError = false)
    (completes : run source parse = .ok conversion) :
    ∃ before final session after, readParse source parse = .ok before ∧
      conversion.code = final.text ∧
      Accounts before session after [before] [final] (conversion.trace.count "edit")
        (conversion.trace.count "specifier") := by
  obtain ⟨before, trace, read, complete, code, counts⟩ := walk_of_run undamaged completes
  obtain ⟨edits, specifiers, accounts⟩ := walk_accounts (readParse_regular read).1 complete
  obtain ⟨noEdit, sameEdits⟩ := counts "edit" (by decide) (by decide)
  obtain ⟨noSpecifier, sameSpecifiers⟩ := counts "specifier" (by decide) (by decide)
  have start : Session.trace (.start trace) = trace := rfl
  rw [accounts.gains.edits, start, noEdit, Nat.zero_add] at sameEdits
  rw [accounts.gains.specifiers, start, noSpecifier, Nat.zero_add] at sameSpecifiers
  exact ⟨before, _, _, _, read, code, sameEdits ▸ sameSpecifiers ▸ accounts⟩

theorem code_of_unrecorded (undamaged : parse.label.hasError = false)
    (ordered : LeavesOrdered (parsedLeaves parse)) (completes : run source parse = .ok conversion)
    (noEdit : conversion.trace.count "edit" = 0)
    (noSpecifier : conversion.trace.count "specifier" = 0) : conversion.code = source := by
  obtain ⟨before, final, _, _, read, code, accounts⟩ := accounts_of_run undamaged completes
  have same : final = before := (List.cons.inj (accounts.quiet noEdit noSpecifier)).1
  rw [code, same, text_of_readParse ordered read]

end Conversion

namespace Batch

open FileSystem

variable {grammar : Grammar} {scope : Scope} {files next : FileSystem} {job : Job}
  {progress : Progress} {bytes : ByteArray} {text : String}

theorem outputName_ahead (job : Job) : job.outputName ≠ ".." := by
  intro back
  have last := congrArg (fun text => text.toList.getLast?) back
  unfold Job.outputName Conversion.extension outputExtension at last
  split at last <;> simp [String.toList_append, List.getLast?_append] at last

theorem traceName_ahead (job : Job) : job.outputName ++ traceEnding ≠ ".." := by
  intro back
  have last := congrArg (fun text => text.toList.getLast?) back
  simp [traceEnding, String.toList_append, List.getLast?_append] at last

theorem locations_apart {place location : Location}
    (output : files.locate (job.output scope) = .ok location)
    (trace : next.locate (job.traceOutput scope) = .ok place) : location ≠ place := by
  let above := scope.settings.outRoot :: job.names.dropLast
  have outputBelow : files.locate (scope.root.below (above ++ [job.outputName])) = .ok location :=
    output
  have traceBelow :
      next.locate (scope.root.below (above ++ [job.outputName ++ traceEnding])) = .ok place := trace
  have here := locate_last (outputName_ahead job) outputBelow
  have there := locate_last (traceName_ahead job) traceBelow
  rintro rfl
  have lengths := congrArg String.length (Option.some.inj (here.symm.trans there))
  simp [traceEnding] at lengths

def Job.TracesTo (job : Job) (scope : Scope) (files : FileSystem) (location : Location) : Prop :=
  scope.settings.trace = true ∧ ∃ place, files.locate (job.traceOutput scope) = .ok place ∧
    files.volume.shares place location = true

theorem deliver_volume (delivers : job.deliver scope files = .ok next) :
    next.volume = files.volume := by
  cases success : job.conversion.success with
  | false =>
      rw [deliver_failed _ _ success] at delivers
      rw [Except.ok.inj delivers]
  | true =>
      obtain ⟨prepared, written, made, output, traced⟩ := (deliver_ok success).mp delivers
      obtain ⟨location, -, -, -, rfl⟩ := write_ok.mp output
      rw [← (makeDirectories_adds made).volume, ← volume_overwrite prepared location job.code]
      split at traced
      next =>
        obtain ⟨place, -, -, -, rfl⟩ := write_ok.mp traced
        exact volume_overwrite ..
      next => rw [Except.ok.inj traced]

theorem holds_output (success : job.conversion.success = true)
    (delivers : job.deliver scope files = .ok next) :
    ∃ location, next.locate (job.output scope) = .ok location ∧
      (next.at? location = some (.file job.code) ∨
        files.at? location = some .special ∧ next.at? location = some .special ∨
        job.TracesTo scope next location) := by
  obtain ⟨prepared, written, made, output, traced⟩ := (deliver_ok success).mp delivers
  obtain ⟨location, leads, free, -, rfl⟩ := write_ok.mp output
  have leadsWritten := locate_keeps (keeps_overwrite free job.code) leads
  have last : next.locate (job.output scope) = .ok location ∧
      (next.at? location = (prepared.overwrite location job.code).at? location ∨
        job.TracesTo scope next location) := by
    split at traced
    next traces =>
      obtain ⟨place, leadsTrace, freeTrace, -, rfl⟩ := write_ok.mp traced
      have keeps := keeps_overwrite freeTrace job.traceText
      refine ⟨locate_keeps keeps leadsWritten, ?_⟩
      cases shared : (prepared.overwrite location job.code).volume.shares place location with
      | true =>
          exact .inr ⟨traces, place, locate_keeps keeps leadsTrace, keeps.volume ▸ shared⟩
      | false =>
          have apart := (locations_apart leadsWritten leadsTrace).symm
          refine .inl (at?_overwrite_other ?_)
          rw [Volume.same, shared, beq_false_of_ne apart]
          rfl
    next =>
      obtain rfl := Except.ok.inj traced
      exact ⟨leadsWritten, .inl rfl⟩
  have held := at?_overwrite_self prepared location job.code
  refine ⟨location, last.1, ?_⟩
  rcases last.2 with same | shared
  next =>
    rw [same]
    split at held
    next special =>
      rcases (makeDirectories_adds made).at? location with same | directory
      next => exact .inr (.inl ⟨same.symm.trans special, held⟩)
      next => simp [special] at directory
    next => exact .inl held
  next => exact .inr (.inr shared)

-- A source that needs no change is converted to the text that was read from it, so its output has its
-- lines, and has its bytes exactly if there is no carriage return in it. Nothing but a fault of the file
-- system keeps the output from being written, and nothing but a trace that goes to the same file under
-- another name is written over it.
theorem convertSource_copies_iff (nonempty : job.names ≠ [])
    (read : progress.files.read (job.source scope) = .ok bytes)
    (decodes : Utf8.decode bytes = .ok text)
    (undamaged : (grammar (unifyLineEnds text)).label.hasError = false)
    (ordered : LeavesOrdered (parsedLeaves (grammar (unifyLineEnds text))))
    (converts : convertBytes grammar bytes = .ok job.conversion)
    (noEdit : job.conversion.trace.count "edit" = 0)
    (noSpecifier : job.conversion.trace.count "specifier" = 0) :
    let ran := convertSource grammar scope (job.source scope) progress
    job.conversion.success = true ∧
      (match job.deliver scope progress.files with
        | .error fault => ran.fault = some (.files fault)
        | .ok next => ran = ⟨job.advance scope next progress, none⟩ ∧
            ∃ location, next.locate (job.output scope) = .ok location ∧
              (next.at? location = some (.file (unifyLineEnds text).toUTF8) ∨
                progress.files.at? location = some .special ∧
                  next.at? location = some .special ∨
                job.TracesTo scope next location)) ∧
      lines (unifyLineEnds text).toList = lines text.toList ∧
      ((unifyLineEnds text).toUTF8 = bytes ↔ '\r' ∉ text.toList) := by
  have reads : sourceText bytes = .ok (unifyLineEnds text) := by simp [sourceText, decodes, Except.map]
  have completes : Conversion.run (unifyLineEnds text) (grammar (unifyLineEnds text)) =
      .ok job.conversion := by
    simpa only [convertBytes, reads] using converts
  have success := Conversion.success_of_run undamaged completes
  have code : job.code = (unifyLineEnds text).toUTF8 :=
    congrArg String.toUTF8
      (Conversion.code_of_unrecorded undamaged ordered completes noEdit noSpecifier)
  refine ⟨success, ?_, lines_unifyLineEnds text, ?_⟩
  next =>
    rw [convertSource_eq, read]
    cases delivers : job.deliver scope progress.files with
    | error fault => exact convertContents_error nonempty converts delivers
    | ok next =>
        refine ⟨convertContents_ok nonempty converts delivers, ?_⟩
        rw [← code]
        exact holds_output success delivers
  next =>
    rw [← unifyLineEnds_eq_iff, ← Utf8.toUTF8_decode decodes]
    exact ⟨fun same => String.toByteArray_inj.mp same, congrArg String.toUTF8⟩

def nameGrammar : Grammar := fun text =>
  let node (kind : String) (stop : Nat) (children : List ParseTree) : ParseTree :=
    .node ⟨kind, 0, stop, none, false, false, false⟩ children
  let semicolon : ParseTree := .node ⟨";", 1, 2, none, false, false, false⟩ []
  node "program" text.utf8ByteSize
    [node "expression_statement" 2 [node "identifier" 1 [], semicolon]]

def statement (lineEnd : List UInt8) : ByteArray := ⟨(102 :: 59 :: lineEnd).toArray⟩

def statementScope : Scope :=
  ⟨⟨"", ["a.js"]⟩, ⟨"", []⟩,
    ⟨"tsConverter", Settings.defaultSkipDirs, Settings.defaultExtensions, true⟩⟩

def beforeStatement (lineEnd : List UInt8) : Progress :=
  ⟨{ entries := [(["a.js"], .file (statement lineEnd))] }, #[], []⟩

def statementJob : Job :=
  ⟨["a.js"], (convertBytes nameGrammar (statement [10])).toOption.get (by decide +kernel)⟩

theorem ordered_nameGrammar (text : String) : LeavesOrdered (parsedLeaves (nameGrammar text)) := by
  have leaves : parsedLeaves (nameGrammar text) = parsedLeaves (nameGrammar "") := rfl
  rw [leaves]
  unfold LeavesOrdered
  decide

theorem lineFeed_copied :
    let ran := convertSource nameGrammar statementScope (statementJob.source statementScope)
      (beforeStatement [10])
    (beforeStatement [10]).files.read (statementJob.source statementScope) =
        .ok (statement [10]) ∧
      LeavesOrdered (parsedLeaves (nameGrammar "f;\n")) ∧
      convertBytes nameGrammar (statement [10]) = .ok statementJob.conversion ∧
      statementJob.conversion.trace.count "edit" = 0 ∧
      statementJob.conversion.trace.count "specifier" = 0 ∧
      ran.fault = none ∧
      ∃ location, ran.progress.files.locate (statementJob.output statementScope) = .ok location ∧
        ran.progress.files.at? location = some (.file (statement [10])) := by
  have read : (beforeStatement [10]).files.read (statementJob.source statementScope) =
      .ok (statement [10]) := rfl
  have decodes : Utf8.decode (statement [10]) = .ok "f;\n" := ok_of_toOption (by decide +kernel)
  have converts : convertBytes nameGrammar (statement [10]) = .ok statementJob.conversion :=
    ok_of_toOption (by rw [statementJob, Option.some_get])
  have noEdit : statementJob.conversion.trace.count "edit" = 0 := by decide +kernel
  have noSpecifier : statementJob.conversion.trace.count "specifier" = 0 := by decide +kernel
  obtain ⟨-, ran, -, copied⟩ := convertSource_copies_iff (by decide) read decodes rfl
    (ordered_nameGrammar _) converts noEdit noSpecifier
  have written : (statementJob.deliver statementScope (beforeStatement [10]).files).toOption.isSome =
      true := by decide +kernel
  cases delivers : statementJob.deliver statementScope (beforeStatement [10]).files with
  | error fault => simp [delivers, Except.toOption] at written
  | ok next =>
      rw [delivers] at ran
      have single : next.volume = {} := deliver_volume delivers
      obtain ⟨went, location, leads, held | ⟨special, -⟩ | ⟨-, place, -, shared⟩⟩ := ran
      next =>
        rw [copied.mpr (by decide)] at held
        rw [went]
        exact ⟨read, ordered_nameGrammar _, converts, noEdit, noSpecifier, rfl, location, leads, held⟩
      next =>
        have member := mem_of_at? special
        simp [beforeStatement] at member
      next => simp [single, Volume.shares] at shared

-- A statement whose line ends in a carriage return and a line feed loses the carriage return.
theorem carriageReturn_lost :
    let source : Path := ⟨"", ["a.js"]⟩
    let ran := convertSource nameGrammar statementScope source (beforeStatement [13, 10])
    (beforeStatement [13, 10]).files.read source = .ok (statement [13, 10]) ∧
      Utf8.decode (statement [13, 10]) = .ok "f;\r\n" ∧
      (nameGrammar (unifyLineEnds "f;\r\n")).label.hasError = false ∧
      LeavesOrdered (parsedLeaves (nameGrammar (unifyLineEnds "f;\r\n"))) ∧
      (∃ conversion, convertBytes nameGrammar (statement [13, 10]) = .ok conversion ∧
        conversion.trace.count "edit" = 0 ∧ conversion.trace.count "specifier" = 0) ∧
      ran.fault.isNone = true ∧
      ran.progress.files.read ⟨"", ["tsConverter", "a.ts"]⟩ = .ok (statement [10]) ∧
      statement [10] ≠ statement [13, 10] := by
  refine ⟨rfl, ok_of_toOption (by decide +kernel), rfl, ordered_nameGrammar _, ?_,
    by decide +kernel, ok_of_toOption (by decide +kernel), by decide⟩
  have quiet : (convertBytes nameGrammar (statement [13, 10])).toOption.map (fun conversion =>
      (conversion.trace.count "edit", conversion.trace.count "specifier")) = some (0, 0) := by
    decide +kernel
  obtain ⟨conversion, converts, counts⟩ := Option.map_eq_some_iff.mp quiet
  obtain ⟨noEdit, noSpecifier⟩ := Prod.mk.inj counts
  exact ⟨conversion, ok_of_toOption converts, noEdit, noSpecifier⟩

end Batch

end ScriptTyping
