import ScriptTyping.Proofs.Batch.Containment

set_option autoImplicit false

namespace ScriptTyping

namespace FileSystem

variable {volume : Volume} {writes more : List (Location × ByteArray)} {location : Location}

theorem lastWrite_append :
    lastWrite volume (writes ++ more) location =
      (lastWrite volume more location).or (lastWrite volume writes location) := by
  simp only [lastWrite, List.reverse_append, List.find?_append]
  cases more.reverse.find? fun entry => volume.same entry.1 location <;> rfl

end FileSystem

namespace Batch

open FileSystem

variable {grammar : Grammar} {scope : Scope} {volume : Volume} {files after : FileSystem} {home : Location}
  {request : Request} {settings : Settings} {job other : Job} {before later jobs : List Job}

theorem concat_inj {α : Type} {above others : List α} {last end_ : α} :
    above ++ [last] = others ++ [end_] ↔ above = others ∧ last = end_ := by
  constructor
  next =>
    intro same
    obtain ⟨front, back⟩ := List.append_inj' same rfl
    exact ⟨front, List.singleton_inj.mp back⟩
  next =>
    rintro ⟨rfl, rfl⟩
    rfl

theorem extended_inj (stem other : String) (hasMarkup otherMarkup : Bool) :
    stem ++ outputExtension hasMarkup = other ++ outputExtension otherMarkup ↔
      stem = other ∧ hasMarkup = otherMarkup := by
  refine ⟨fun same => ?_, fun ⟨stems, kinds⟩ => by rw [stems, kinds]⟩
  -- The last letters of the two extensions differ.
  have kinds : hasMarkup = otherMarkup := by
    have last (text : String) (kind : Bool) : (text ++ outputExtension kind).toList.getLast? =
        some (if kind then 'x' else 's') := by
      cases kind <;>
        simp [outputExtension, String.toList_append, List.getLast?_append]
    have letters := congrArg (fun text => text.toList.getLast?) same
    simp only [last] at letters
    cases hasMarkup <;> cases otherMarkup <;> simp_all
  subst kinds
  exact ⟨(String.append_left_inj _).mp same, rfl⟩

theorem output_eq_iff (some : job.names ≠ []) (someOther : other.names ≠ []) :
    job.output scope = other.output scope ↔
      (job.source scope).parent = (other.source scope).parent ∧
        Path.stem (job.source scope).name = Path.stem (other.source scope).name ∧
        job.conversion.hasMarkup = other.conversion.hasMarkup := by
  have paths {names more : List String} :
      scope.root.below names = scope.root.below more ↔ names = more := by
    simp [Path.below, Path.append]
  simp only [Job.output, Job.source, Path.parent_below _ some, Path.parent_below _ someOther, paths,
    Path.name_below _ some, Path.name_below _ someOther, List.cons.injEq, true_and,
    Job.outputNames, concat_inj, Job.outputName, Conversion.extension, extended_inj]

theorem traceNames_ne (job other : Job) : job.traceNames ≠ other.outputNames := by
  intro same
  have lasts := congrArg (fun text => text.toList.getLast?) (concat_inj.mp same).2
  unfold Job.outputName Conversion.extension outputExtension traceEnding at lasts
  split at lasts <;> split at lasts <;>
    simp [String.toList_append, List.getLast?_append] at lasts

theorem traceLocation_ne (job other : Job) :
    job.traceLocation scope home ≠ other.outputLocation scope home := by
  intro same
  refine traceNames_ne job other ?_
  simpa [Job.traceLocation, Job.outputLocation] using same

theorem lastWrite_of_other (plain : volume.Plain) (apart : other.conversion.success = true →
      other.output scope ≠ job.output scope) :
    lastWrite volume (other.writes scope home) (job.outputLocation scope home) = none := by
  refine lastWrite_eq_none.mpr fun entry member => ?_
  rw [plain.same_eq, beq_eq_false_iff_ne]
  unfold Job.writes at member
  split at member
  next success =>
    rcases List.mem_cons.mp member with rfl | member
    next =>
      intro same
      refine apart success ?_
      have names : other.outputNames = job.outputNames := by
        simpa [Job.outputLocation] using same
      simp [Job.output, names]
    next =>
      split at member
      next =>
        obtain rfl := List.mem_singleton.mp member
        exact traceLocation_ne other job
      next => simp at member
  next => simp at member

theorem lastWrite_of_job (plain : volume.Plain) (success : job.conversion.success = true) :
    lastWrite volume (job.writes scope home) (job.outputLocation scope home) = some job.code := by
  unfold Job.writes
  rw [if_pos success]
  split
  next =>
    rw [show [_, _] = [_] ++ [_] from rfl, lastWrite_concat, if_neg]
    next => simp [lastWrite]
    next => simpa [plain.same_eq] using traceLocation_ne job job
  next => simp [lastWrite]

theorem lastWrite_of_last (plain : volume.Plain) (success : job.conversion.success = true)
    (last : ∀ other ∈ later, other.conversion.success = true →
      other.output scope ≠ job.output scope) :
    lastWrite volume ((before ++ job :: later).flatMap (·.writes scope home))
      (job.outputLocation scope home) = some job.code := by
  have none : lastWrite volume (later.flatMap (·.writes scope home)) (job.outputLocation scope home) =
      none := by
    refine lastWrite_eq_none.mpr fun entry member => ?_
    obtain ⟨other, present, inside⟩ := List.mem_flatMap.mp member
    exact lastWrite_eq_none.mp (lastWrite_of_other plain (last other present)) entry inside
  rw [List.flatMap_append, List.flatMap_cons, lastWrite_append, lastWrite_append, none,
    lastWrite_of_job plain success]
  rfl

theorem deliverAll_append :
    deliverAll scope (before ++ later) files = .ok after ↔
      ∃ between, deliverAll scope before files = .ok between ∧
        deliverAll scope later between = .ok after := by
  induction before generalizing files with
  | nil => simp [deliverAll]
  | cons job rest ih =>
      simp only [List.cons_append, deliverAll_cons, ih]
      constructor
      next =>
        rintro ⟨next, first, between, others, last⟩
        exact ⟨between, ⟨next, first, others⟩, last⟩
      next =>
        rintro ⟨between, ⟨next, first, others⟩, last⟩
        exact ⟨next, first, between, others, last⟩

theorem locate_output (site : Site files scope.root home scope.settings.outRoot)
    (named : ∀ name ∈ job.names, IsName name) (some : job.names ≠ [])
    (success : job.conversion.success = true) {next : FileSystem}
    (delivers : job.deliver scope files = .ok next) :
    next.locate (job.output scope) = .ok (job.outputLocation scope home) := by
  obtain ⟨prepared, written, made, output, traced⟩ := (deliver_ok success).mp delivers
  have reaches := deliver_reaches site named some delivers
  obtain ⟨location, leads, free, -, rfl⟩ := write_ok.mp output
  have keeps : Keeps prepared next := by
    refine (keeps_overwrite free job.code).trans ?_
    split at traced
    next =>
      obtain ⟨place, -, open_, -, rfl⟩ := write_ok.mp traced
      exact keeps_overwrite open_ _
    next =>
      obtain rfl := Except.ok.inj traced
      exact Keeps.refl _
  have leadsNext := locate_keeps keeps leads
  obtain rfl := (site.reaches reaches).location_eq
    ((site.named_cons (named_outputNames named some))) leadsNext
  exact leadsNext

theorem holds_last (stands : scope.Stands files home) (plain : files.volume.Plain)
    (completes : Completes grammar scope files (before ++ job :: later) after)
    (success : job.conversion.success = true)
    (last : ∀ other ∈ later, other.conversion.success = true →
      other.output scope ≠ job.output scope) :
    ∃ location, after.locate (job.output scope) = .ok location ∧
      (after.at? location = some (.file job.code) ∨
        files.at? location = some .special ∧ after.at? location = some .special) := by
  have named := completes.named stands
  have stored := stands.site.stored (completes.reaches stands)
  obtain ⟨each, some⟩ := named job (by simp)
  obtain ⟨between, first, rest⟩ := deliverAll_append.mp completes.delivers
  obtain ⟨next, delivers, others⟩ := deliverAll_cons.mp rest
  have namedBefore : Named before := fun other member => named other (by simp [member])
  have namedLater : Named later := fun other member => named other (by simp [member])
  have site := stands.site.reaches (deliverAll_reaches stands.site namedBefore first)
  have siteNext := site.reaches (deliver_reaches site each some delivers)
  have keeps := (deliverAll_reaches siteNext namedLater others).keeps
  refine ⟨job.outputLocation scope home,
    locate_keeps keeps (locate_output site each some success delivers), ?_⟩
  by_cases special : files.at? (job.outputLocation scope home) = Option.some .special
  next => exact .inr ⟨special, stored.special _ special⟩
  next => exact .inl (stored.last _ _ special (lastWrite_of_last plain success last))

/-- The output that a run reports for a source holds the converted text in the end, if no later
source has the same output; and two sources have the same output exactly if they are in the same
directory, differ at most in the extension, and markup was found in both or in neither. A special
file in the place of an output stays what it is. -/
theorem run_keeps_last_output (proper : files.Proper)
    (loaded : loadSettings files request = .ok settings)
    (resolved : Scope.resolve files request.input settings = .ok scope)
    (ended : (run grammar files request).ending = .exit 0) :
    ∃ jobs : List Job, scope.sources files = .ok (jobs.map (·.source scope)) ∧
      (∀ job ∈ jobs, job.Converts grammar scope files) ∧
      (run grammar files request).notices.toList = announcement scope files ++
        jobs.map (·.notice scope) ++ summary (resultsFrom jobs []) ∧
      (∀ job ∈ jobs, ∀ other ∈ jobs,
        job.output scope = other.output scope ↔
          (job.source scope).parent = (other.source scope).parent ∧
            Path.stem (job.source scope).name = Path.stem (other.source scope).name ∧
            job.conversion.hasMarkup = other.conversion.hasMarkup) ∧
      ∀ before job later, jobs = before ++ job :: later → job.conversion.success = true →
        (∀ other ∈ later, other.conversion.success = true →
          other.output scope ≠ job.output scope) →
        ∃ location, (run grammar files request).files.locate (job.output scope) = .ok location ∧
          ((run grammar files request).files.at? location = some (.file job.code) ∨
            files.at? location = some .special ∧
              (run grammar files request).files.at? location = some .special) := by
  obtain ⟨rfl, input, home, stands⟩ :=
    Scope.stands_of_resolve proper.toRooted (isName_outRoot loaded) resolved
  have closed := proper.plain.sealed (home ++ [scope.settings.outRoot])
  rw [run_eq loaded resolved] at ended ⊢
  obtain ⟨jobs, after, completes⟩ := completes_of_exit stands closed ended
  have named := completes.named stands
  rw [runScope_completes stands closed completes]
  refine ⟨jobs, ?_, completes.converts, by simp, fun job member other present => ?_,
    fun before job later split success last => ?_⟩
  next =>
    rw [stands.sources_eq, completes.listed]
    simp [Job.source]
  next => exact output_eq_iff (named job member).2 (named other present).2
  next =>
    subst split
    exact holds_last stands proper.plain completes success last

theorem jobs_eq_of_converts {jobs others : List Job}
    (converts : ∀ job ∈ jobs, job.Converts grammar scope files)
    (convertsOthers : ∀ job ∈ others, job.Converts grammar scope files)
    (same : jobs.map (·.source scope) = others.map (·.source scope)) : jobs = others := by
  induction jobs generalizing others with
  | nil => exact (List.map_eq_nil_iff.mp same.symm).symm
  | cons job rest ih =>
      obtain ⟨other, more, rfl, source, sources⟩ := List.map_eq_cons_iff.mp same.symm
      obtain ⟨bytes, read, converted⟩ := converts job (by simp)
      obtain ⟨otherBytes, otherRead, otherConverted⟩ := convertsOthers other (by simp)
      rw [source, read] at otherRead
      obtain rfl := Except.ok.inj otherRead
      have conversion := Except.ok.inj (otherConverted.symm.trans converted)
      have names : other.names = job.names := by
        simpa [Job.source, Path.below, Path.append] using source
      have equal : job = other := by
        cases job
        cases other
        exact Job.mk.injEq .. ▸ ⟨names.symm, conversion.symm⟩
      rw [equal, ih (fun job member => converts job (List.mem_cons_of_mem _ member))
        (fun job member => convertsOthers job (List.mem_cons_of_mem _ member)) sources.symm]

theorem twins_kept :
    twins.Proper ∧ loadSettings twins twinsRequest = .ok twinsScope.settings ∧
      Scope.resolve twins twinsRequest.input twinsScope.settings = .ok twinsScope ∧
      (run blankGrammar twins twinsRequest).ending = .exit 0 ∧
      ∃ location,
        (run blankGrammar twins twinsRequest).files.locate (typedTwin.output twinsScope) =
          .ok location ∧
        (run blankGrammar twins twinsRequest).files.at? location = some (.file typedTwin.code) := by
  obtain ⟨jobs, sources, converts, -, -, kept⟩ :=
    run_keeps_last_output proper_twins loadSettings_twins resolve_twins ended_twins
  obtain rfl : jobs = twinsJobs := by
    refine jobs_eq_of_converts converts converts_twins ?_
    rw [stands_twins.sources_eq, listing_twins] at sources
    simpa [Job.source, Function.comp_def] using (Except.ok.inj sources).symm
  obtain ⟨location, leads, held | ⟨special, -⟩⟩ :=
    kept [untypedTwin] typedTwin [] rfl (by decide +kernel) (by simp)
  next => exact ⟨proper_twins, loadSettings_twins, resolve_twins, ended_twins, location, leads, held⟩
  next =>
    have member := mem_of_at? special
    simp [twins] at member

-- Both sources are reported as converted to one output, and it does not hold what the first of them
-- was converted to.
theorem twins_overwritten :
    twins.Proper ∧ loadSettings twins twinsRequest = .ok twinsScope.settings ∧
      Scope.resolve twins twinsRequest.input twinsScope.settings = .ok twinsScope ∧
      (run blankGrammar twins twinsRequest).ending = .exit 0 ∧
      untypedTwin.source twinsScope ≠ typedTwin.source twinsScope ∧
      untypedTwin.Converts blankGrammar twinsScope twins ∧
      typedTwin.Converts blankGrammar twinsScope twins ∧
      untypedTwin.conversion.success = true ∧ typedTwin.conversion.success = true ∧
      untypedTwin.notice twinsScope ∈ (run blankGrammar twins twinsRequest).notices ∧
      typedTwin.notice twinsScope ∈ (run blankGrammar twins twinsRequest).notices ∧
      untypedTwin.output twinsScope = typedTwin.output twinsScope ∧
      ((run blankGrammar twins twinsRequest).files.read
        (untypedTwin.output twinsScope)).toOption.map (·.toList) ≠
          some untypedTwin.code.toList := by
  obtain ⟨after, completes, held⟩ := completes_twins
  rw [run_eq loadSettings_twins resolve_twins,
    runScope_completes stands_twins (plain_default.sealed _) completes]
  have output : untypedTwin.output twinsScope =
      twinsScope.root.below ["tsConverter", "a.ts"] := by decide +kernel
  have outputTyped : typedTwin.output twinsScope =
      twinsScope.root.below ["tsConverter", "a.ts"] := by decide +kernel
  have code : untypedTwin.code.toList = [] := by decide +kernel
  refine ⟨proper_twins, loadSettings_twins, resolve_twins, rfl, by decide,
    converts_twins _ (by simp [twinsJobs]), converts_twins _ (by simp [twinsJobs]),
    by decide +kernel, by decide +kernel, by simp [twinsJobs], by simp [twinsJobs],
    output.trans outputTyped.symm, ?_⟩
  rw [output, code, held]
  decide

end Batch

end ScriptTyping
