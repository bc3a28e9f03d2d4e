import ScriptTyping.Proofs.Batch.Delivery
import ScriptTyping.Proofs.Settings.Load

set_option autoImplicit false

namespace ScriptTyping.Batch

open FileSystem

variable {grammar : Grammar} {scope : Scope} {files after : FileSystem} {home : Location}
  {job : Job} {jobs : List Job} {progress : Progress} {found : List (List String)}
  {writes : List (Location × ByteArray)}

def Job.Converts (grammar : Grammar) (scope : Scope) (files : FileSystem) (job : Job) : Prop :=
  ∃ bytes, files.read (job.source scope) = .ok bytes ∧
    convertBytes grammar bytes = .ok job.conversion

def resultsFrom (jobs : List Job) (results : Results) : Results :=
  jobs.foldl (fun results job => Results.put job.key job.conversion results) results

theorem convertKnown_ok (converts : ∀ job ∈ jobs, job.Converts grammar scope files)
    (named : Named jobs) (delivers : deliverAll scope jobs progress.files = .ok after) :
    convertKnown grammar scope files (jobs.map (·.names)) progress =
      ⟨⟨after, progress.notices ++ (jobs.map (·.notice scope)).toArray,
        resultsFrom jobs progress.results⟩, none⟩ := by
  induction jobs generalizing progress with
  | nil =>
      obtain rfl := Except.ok.inj delivers
      simp [convertKnown, resultsFrom]
  | cons job rest ih =>
      obtain ⟨next, first, others⟩ := deliverAll_cons.mp delivers
      obtain ⟨bytes, read, converted⟩ := converts job (by simp)
      simp only [Job.source] at read
      have here := convertContents_ok (named job (by simp)).2 converted first
      have later : convertKnown grammar scope files (rest.map (·.names))
          (job.advance scope next progress) = _ :=
        ih (fun other member => converts other (List.mem_cons_of_mem _ member)) named.tail others
      simp only [Job.source] at here
      simp only [List.map_cons, convertKnown, read, here, later]
      simp [Job.advance, resultsFrom]

theorem convertKnown_error (converts : ∀ job ∈ jobs, job.Converts grammar scope files)
    (named : Named jobs) {fault : FileFault}
    (stops : deliverAll scope jobs progress.files = .error fault) :
    (convertKnown grammar scope files (jobs.map (·.names)) progress).fault =
      some (.files fault) := by
  induction jobs generalizing progress with
  | nil => simp [deliverAll] at stops
  | cons job rest ih =>
      obtain ⟨bytes, read, converted⟩ := converts job (by simp)
      simp only [Job.source] at read
      simp only [List.map_cons, convertKnown, read]
      cases delivers : job.deliver scope progress.files with
      | error other =>
          have here := convertContents_error (named job (by simp)).2 converted delivers
          simp only [deliverAll, delivers, Except.bind, Except.error.injEq] at stops
          simp only [Job.source] at here
          simp [here, stops]
      | ok next =>
          have here := convertContents_ok (named job (by simp)).2 converted delivers
          simp only [deliverAll, delivers, Except.bind] at stops
          simp only [Job.source] at here
          simp only [here]
          exact ih (fun other member => converts other (List.mem_cons_of_mem _ member)) named.tail
            stops

theorem jobs_of_convertKnown (named : ∀ names ∈ found, names ≠ [])
    (ended : (convertKnown grammar scope files found progress).fault = none) :
    ∃ jobs after, jobs.map (·.names) = found ∧
      (∀ job ∈ jobs, job.Converts grammar scope files) ∧
      deliverAll scope jobs progress.files = .ok after := by
  induction found generalizing progress with
  | nil => exact ⟨[], progress.files, rfl, by simp, rfl⟩
  | cons names rest ih =>
      simp only [convertKnown] at ended
      cases read : files.read (scope.root.below names) with
      | error fault => simp [read, convertContents] at ended
      | ok bytes =>
          cases converted : convertBytes grammar bytes with
          | error fault => simp [read, convertContents, converted] at ended
          | ok conversion =>
              let job : Job := ⟨names, conversion⟩
              have some : job.names ≠ [] := named names (by simp)
              have converts : job.Converts grammar scope files := ⟨bytes, read, converted⟩
              cases delivers : job.deliver scope progress.files with
              | error fault =>
                  have here := convertContents_error some converted delivers
                  simp only [Job.source, job] at here
                  simp [read, here] at ended
              | ok next =>
                  have here := convertContents_ok some converted delivers
                  simp only [Job.source, job] at here
                  simp only [read, here] at ended
                  obtain ⟨jobs, after, all, each, others⟩ :=
                    ih (fun names member => named names (List.mem_cons_of_mem _ member)) ended
                  refine ⟨job :: jobs, after, by simp [job, all], ?_,
                    deliverAll_cons.mpr ⟨next, delivers, others⟩⟩
                  intro other member
                  rcases List.mem_cons.mp member with rfl | member
                  next => exact converts
                  next => exact each other member

-- A run on a scope goes through with these jobs.
structure Completes (grammar : Grammar) (scope : Scope) (files : FileSystem) (jobs : List Job)
    (after : FileSystem) : Prop where
  listed : scope.listing files = (jobs.map (·.names), none)
  converts : ∀ job ∈ jobs, job.Converts grammar scope files
  delivers : deliverAll scope jobs files = .ok after

def announcement (scope : Scope) (files : FileSystem) : List Notice :=
  match files.isDirectory scope.input with
  | .ok true =>
      [.record .info ("Converting " ++ shownPath scope.input.toText ++ " into " ++
        shownPath scope.outDir.toText)]
  | _ => []

theorem announce_eq (scope : Scope) (files : FileSystem) :
    announce scope ⟨files, #[], []⟩ = ⟨files, (announcement scope files).toArray, []⟩ := by
  unfold announce announcement
  cases files.isDirectory scope.input with
  | error fault => rfl
  | ok directory => cases directory <;> rfl

theorem convertAll_announced (stands : scope.Stands files home) :
    convertAll grammar scope (announce scope ⟨files, #[], []⟩) =
      closeSearch
        (convertEach grammar scope (scope.listing files).1 (announce scope ⟨files, #[], []⟩))
        (scope.listing files).2 := by
  rw [announce_eq]
  exact convertAll_eq stands

theorem convertAll_known (stands : scope.Stands files home)
    (closed : files.volume.Sealed (home ++ [scope.settings.outRoot])) :
    convertAll grammar scope (announce scope ⟨files, #[], []⟩) =
      closeSearch
        (convertKnown grammar scope files (scope.listing files).1
          (announce scope ⟨files, #[], []⟩))
        (scope.listing files).2 := by
  rw [convertAll_announced stands, announce_eq,
    convertEach_eq_convertKnown stands closed (fun _ found => found) ⟨[], .start⟩]

theorem Completes.mem_listing (completes : Completes grammar scope files jobs after)
    (member : job ∈ jobs) : job.names ∈ (scope.listing files).1 := by
  rw [completes.listed]
  exact List.mem_map_of_mem member

theorem Completes.named (completes : Completes grammar scope files jobs after)
    (stands : scope.Stands files home) : Named jobs :=
  fun job member => stands.listing_named job.names (completes.mem_listing member)

theorem Completes.once (completes : Completes grammar scope files jobs after)
    (stands : scope.Stands files home) : (jobs.map (·.names)).Nodup := by
  have all := stands.listing_nodup
  rwa [completes.listed] at all

theorem runScope_completes (stands : scope.Stands files home)
    (closed : files.volume.Sealed (home ++ [scope.settings.outRoot]))
    (completes : Completes grammar scope files jobs after) :
    runScope grammar files scope =
      ⟨after, (announcement scope files ++ jobs.map (·.notice scope) ++
        summary (resultsFrom jobs [])).toArray, .exit 0⟩ := by
  let start : Progress := ⟨files, (announcement scope files).toArray, []⟩
  have all : convertKnown grammar scope files (jobs.map (·.names)) start =
      ⟨⟨after, start.notices ++ (jobs.map (·.notice scope)).toArray, resultsFrom jobs []⟩, none⟩ :=
    convertKnown_ok completes.converts (completes.named stands) completes.delivers
  simp only [runScope, convertAll_known stands closed, completes.listed]
  simp only [announce_eq]
  rw [show convertKnown grammar scope files (jobs.map (·.names))
    ⟨files, (announcement scope files).toArray, []⟩ = _ from all]
  simp [closeSearch, start]

theorem completes_of_exit (stands : scope.Stands files home)
    (closed : files.volume.Sealed (home ++ [scope.settings.outRoot]))
    (ended : (runScope grammar files scope).ending = .exit 0) :
    ∃ jobs after, Completes grammar scope files jobs after := by
  simp only [runScope, convertAll_known stands closed] at ended
  simp only [announce_eq] at ended
  cases converted : (convertKnown grammar scope files (scope.listing files).1
      ⟨files, (announcement scope files).toArray, []⟩).fault with
  | some fault => simp [closeSearch, converted] at ended
  | none =>
      cases searched : (scope.listing files).2 with
      | some fault => simp [closeSearch, converted, searched] at ended
      | none =>
          obtain ⟨jobs, after, all, converts, delivers⟩ := jobs_of_convertKnown
            (fun names member => (stands.listing_named names member).2) converted
          exact ⟨jobs, after, Prod.ext all.symm searched, converts, delivers⟩

theorem completes_files (stands : scope.Stands files home)
    (closed : files.volume.Sealed (home ++ [scope.settings.outRoot]))
    (completes : Completes grammar scope files jobs after) :
    (runScope grammar files scope).files = after := by
  rw [runScope_completes stands closed completes]

theorem Completes.reaches (completes : Completes grammar scope files jobs after)
    (stands : scope.Stands files home) :
    Reaches (home ++ [scope.settings.outRoot]) files (jobs.flatMap (·.writes scope home)) after :=
  deliverAll_reaches stands.site (completes.named stands) completes.delivers

theorem runScope_reaches (grammar : Grammar) (stands : scope.Stands files home) :
    ∃ writes, Reaches (home ++ [scope.settings.outRoot]) files writes
      (runScope grammar files scope).files := by
  let start := announce scope ⟨files, #[], []⟩
  have untouched : start.files = files := by simp only [start, announce_eq]
  have reaches : ∃ writes, Reaches (home ++ [scope.settings.outRoot]) files writes
      (convertEach grammar scope (scope.listing files).1 start).progress.files :=
    convertEach_reaches stands stands.listing_named ⟨[], untouched ▸ .start⟩
  have same : (runScope grammar files scope).files =
      (convertAll grammar scope start).progress.files := by
    simp only [runScope, start]
    split <;> rfl
  have closed (ran : Ran) (fault : Option SearchFault) :
      (closeSearch ran fault).progress = ran.progress := by
    unfold closeSearch
    split <;> rfl
  rw [same, convertAll_announced stands, closed]
  exact reaches

theorem completes_again (stands : scope.Stands files home)
    (closed : files.volume.Sealed (home ++ [scope.settings.outRoot]))
    (granted : files.volume.Rewritable (home ++ [scope.settings.outRoot]))
    (completes : Completes grammar scope files jobs after) :
    Completes grammar scope after jobs after := by
  have reaches := completes.reaches stands
  refine ⟨(stands.listing_reaches reaches).trans completes.listed, fun job member => ?_,
    deliverAll_again stands.site granted (completes.named stands) completes.delivers⟩
  obtain ⟨bytes, read, converted⟩ := completes.converts job member
  have same := stands.read_reaches closed reaches job.names (completes.mem_listing member)
  exact ⟨bytes, same.trans read, converted⟩

end ScriptTyping.Batch
