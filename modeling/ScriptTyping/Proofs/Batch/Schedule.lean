import ScriptTyping.Proofs.Batch.Jobs

set_option autoImplicit false

namespace ScriptTyping.Batch

open FileSystem

variable {grammar : Grammar} {scope : Scope} {files now next after : FileSystem} {home : Location}
  {job : Job} {jobs : List Job} {names : List String} {progress : Progress}

theorem isName_outputName (named : ∀ name ∈ job.names, IsName name) (some : job.names ≠ []) :
    IsName job.outputName := by
  have last : IsName (job.names.getLastD "") := by
    rw [List.getLastD_eq_getLast?, List.getLast?_eq_some_getLast some]
    exact named _ (List.getLast_mem some)
  unfold Job.outputName Conversion.extension outputExtension
  split <;> exact isName_append last (by decide) (by decide) (by decide)

theorem isName_traceName (named : ∀ name ∈ job.names, IsName name) (some : job.names ≠ []) :
    IsName (job.outputName ++ traceEnding) where
  ahead := by
    intro same
    have chars := congrArg (fun text => text.toList.getLast?) same
    simp only [String.toList_append] at chars
    rw [List.getLast?_append_of_ne_nil _ (by decide)] at chars
    exact absurd chars (by decide)
  whole := by
    simp only [String.toList_append, List.mem_append, not_or]
    exact ⟨(isName_outputName named some).whole, by decide⟩

theorem named_outputNames (named : ∀ name ∈ job.names, IsName name) (some : job.names ≠ []) :
    ∀ name ∈ job.outputNames, IsName name := by
  intro name member
  rcases List.mem_append.mp member with above | last
  next => exact named name (List.dropLast_subset _ above)
  next => exact List.mem_singleton.mp last ▸ isName_outputName named some

theorem named_traceNames (named : ∀ name ∈ job.names, IsName name) (some : job.names ≠ []) :
    ∀ name ∈ job.traceNames, IsName name := by
  intro name member
  rcases List.mem_append.mp member with above | last
  next => exact named name (List.dropLast_subset _ above)
  next => exact List.mem_singleton.mp last ▸ isName_traceName named some

namespace Job

variable (scope : Scope) (home : Location) (job : Job)

def outputLocation : Location := home ++ scope.settings.outRoot :: job.outputNames

def traceLocation : Location := home ++ scope.settings.outRoot :: job.traceNames

def writes : List (Location × ByteArray) :=
  if job.conversion.success then
    (job.outputLocation scope home, job.code) ::
      if scope.settings.trace then [(job.traceLocation scope home, job.traceText)] else []
  else []

end Job

theorem deliver_reaches (site : Site files scope.root home scope.settings.outRoot)
    (named : ∀ name ∈ job.names, IsName name) (some : job.names ≠ [])
    (delivers : job.deliver scope files = .ok next) :
    Reaches (home ++ [scope.settings.outRoot]) files (job.writes scope home) next := by
  cases success : job.conversion.success with
  | false =>
      rw [deliver_failed _ _ success] at delivers
      obtain rfl := Except.ok.inj delivers
      simpa [Job.writes, success] using Reaches.start
  | true =>
      obtain ⟨prepared, written, made, output, traced⟩ := (deliver_ok success).mp delivers
      rw [output_parent] at made
      have namedAbove : ∀ name ∈ job.names.dropLast, IsName name :=
        fun name member => named name (List.dropLast_subset _ member)
      obtain ⟨first, -⟩ := site.makeDirectories_reaches namedAbove made
      have second := (site.reaches first).write_reaches (named_outputNames named some)
        (by simp [Job.outputNames]) output
      have both := first.trans second
      split at traced
      next traces =>
        have third := (site.reaches both).write_reaches (named_traceNames named some)
          (by simp [Job.traceNames]) traced
        simpa [Job.writes, Job.outputLocation, Job.traceLocation, success, traces] using
          both.trans third
      next silent =>
        obtain rfl := Except.ok.inj traced
        simpa [Job.writes, Job.outputLocation, success, silent] using both

theorem writeOutput_reaches (job : Job)
    (site : Site progress.files scope.root home scope.settings.outRoot)
    (named : ∀ name ∈ job.names, IsName name) (some : job.names ≠ []) (source : Path) :
    ∃ writes, Reaches (home ++ [scope.settings.outRoot]) progress.files writes
      (writeOutput scope.settings source (job.output scope) job.conversion progress).progress.files :=
    by
  have namedAbove : ∀ name ∈ job.names.dropLast, IsName name :=
    fun name member => named name (List.dropLast_subset _ member)
  unfold writeOutput
  rw [output_parent, output_withEnding]
  split
  next => exact ⟨[], .start⟩
  next prepared made =>
    obtain ⟨first, -⟩ := site.makeDirectories_reaches namedAbove made
    split
    next => exact ⟨[], first⟩
    next written output =>
      have second := first.trans ((site.reaches first).write_reaches
        (named_outputNames named some) (by simp [Job.outputNames]) output)
      dsimp only
      split
      next =>
        split
        next => exact ⟨_, second⟩
        next traced third =>
          exact ⟨_, second.trans ((site.reaches second).write_reaches
            (named_traceNames named some) (by simp [Job.traceNames]) third)⟩
      next => exact ⟨_, second⟩

theorem convertContents_reaches (grammar : Grammar)
    (site : Site progress.files scope.root home scope.settings.outRoot)
    (named : ∀ name ∈ names, IsName name) (some : names ≠ [])
    (contents : Except FileFault ByteArray) :
    ∃ writes, Reaches (home ++ [scope.settings.outRoot]) progress.files writes
      (convertContents grammar scope (scope.root.below names) contents progress).progress.files := by
  cases contents with
  | error fault => exact ⟨[], .start⟩
  | ok bytes =>
      cases converts : convertBytes grammar bytes with
      | error fault =>
          simp only [convertContents, converts]
          exact ⟨[], .start⟩
      | ok conversion =>
          have same : (convertContents grammar scope (scope.root.below names) (.ok bytes)
              progress).progress.files =
                (finish scope (scope.root.below names) conversion progress).progress.files := by
            simp only [convertContents, converts]
            split <;> rfl
          rw [same]
          unfold finish
          rw [outputPath?_below scope some]
          split
          next => exact writeOutput_reaches ⟨names, conversion⟩ site named some _
          next => exact ⟨[], .start⟩

def convertEach (grammar : Grammar) (scope : Scope) : List (List String) → Progress → Ran
  | [], progress => ⟨progress, none⟩
  | names :: rest, progress =>
      let ran := convertSource grammar scope (scope.root.below names) progress
      match ran.fault with
      | some _ => ran
      | none => convertEach grammar scope rest ran.progress

-- Converts each source with what it held in the beginning.
def convertKnown (grammar : Grammar) (scope : Scope) (files : FileSystem) :
    List (List String) → Progress → Ran
  | [], progress => ⟨progress, none⟩
  | names :: rest, progress =>
      let source := scope.root.below names
      let ran := convertContents grammar scope source (files.read source) progress
      match ran.fault with
      | some _ => ran
      | none => convertKnown grammar scope files rest ran.progress

-- A search that has ended with a fault ends a run that has come so far.
def closeSearch (ran : Ran) (fault : Option SearchFault) : Ran :=
  match ran.fault with
  | some _ => ran
  | none => ⟨ran.progress, fault.map .ofSearch⟩

theorem convertEach_reaches (stands : scope.Stands files home) {found : List (List String)}
    (named : ∀ names ∈ found, (∀ name ∈ names, IsName name) ∧ names ≠ [])
    (reached : ∃ writes,
      Reaches (home ++ [scope.settings.outRoot]) files writes progress.files) :
    ∃ writes, Reaches (home ++ [scope.settings.outRoot]) files writes
      (convertEach grammar scope found progress).progress.files := by
  induction found generalizing progress with
  | nil => exact reached
  | cons names rest ih =>
      obtain ⟨before, first⟩ := reached
      obtain ⟨each, some⟩ := named names (by simp)
      obtain ⟨now, second⟩ := convertContents_reaches grammar
        (stands.reaches first).site each some (progress.files.read (scope.root.below names))
      simp only [convertEach, convertSource_eq]
      split
      next => exact ⟨_, first.trans second⟩
      next =>
        exact ih (fun names member => named names (List.mem_cons_of_mem _ member))
          ⟨_, first.trans second⟩

theorem convertEach_eq_convertKnown (stands : scope.Stands files home)
    (closed : files.volume.Sealed (home ++ [scope.settings.outRoot])) {found : List (List String)}
    (listed : ∀ names ∈ found, names ∈ (scope.listing files).1)
    (reached : ∃ writes,
      Reaches (home ++ [scope.settings.outRoot]) files writes progress.files) :
    convertEach grammar scope found progress = convertKnown grammar scope files found progress := by
  induction found generalizing progress with
  | nil => rfl
  | cons names rest ih =>
      obtain ⟨before, reaches⟩ := reached
      obtain ⟨each, some⟩ := stands.listing_named names (listed names (by simp))
      have read := stands.read_reaches closed reaches names (listed names (by simp))
      obtain ⟨more, onward⟩ := convertContents_reaches grammar (stands.reaches reaches).site each some
        (files.read (scope.root.below names))
      simp only [convertEach, convertSource_eq, read, convertKnown]
      split
      next => rfl
      next =>
        exact ih (fun other member => listed other (List.mem_cons_of_mem _ member))
          ⟨_, reaches.trans onward⟩

theorem children_seen (some : names ≠ [])
    (open_ : Scope.seen [home ++ [scope.settings.outRoot]] home names = true) :
    ∀ child ∈ scope.childrenOf files names,
      Scope.seen [home ++ [scope.settings.outRoot]] home child = true := by
  intro child member
  obtain ⟨name, -, rfl⟩ := List.mem_map.mp member
  by_contra hidden
  obtain ⟨rest, same⟩ := Scope.seen_place.mp (by simpa using hidden)
  rw [Scope.seen_place.mpr ?_] at open_
  next => exact Bool.noConfusion open_
  next =>
    cases names with
    | nil => exact absurd rfl some
    | cons first others =>
        simp only [List.cons_append, List.cons.injEq] at same
        exact ⟨others, by rw [same.1]⟩

theorem visit_reaches (stands : scope.Stands files home) (listed : Scope.Listed files home names)
    {writes : List (Location × ByteArray)}
    (reaches : Reaches (home ++ [scope.settings.outRoot]) files writes now) :
    scope.visit now (scope.root.below names) = scope.visit files (scope.root.below names) := by
  have alike := Scope.alike_of_reaches stands reaches
  by_cases open_ : Scope.seen [home ++ [scope.settings.outRoot]] home names = true
  next =>
    rw [Scope.visit_alike alike listed.ahead open_]
    have all := Scope.children_alike alike listed.ahead open_
    rw [List.filter_eq_self.mpr (children_seen listed.some open_),
      List.filter_eq_self.mpr (children_seen listed.some open_)] at all
    cases visited : scope.visit files (scope.root.below names) with
    | error fault => rfl
    | ok visit =>
        cases visit with
        | pass => rfl
        | take => rfl
        | descend entries =>
            simp only [all]
            rw [Scope.visit_descend visited]
  next =>
    obtain ⟨rest, rfl⟩ := Scope.seen_place.mp (by simpa using open_)
    simp [Scope.visit_below, Scope.skips_outRoot]

theorem convertFrom_eq (stands : scope.Stands files home) (steps : Nat)
    {pending : List (List String)} (listed : ∀ names ∈ pending, Scope.Listed files home names)
    (reached : ∃ writes,
      Reaches (home ++ [scope.settings.outRoot]) files writes progress.files) :
    convertFrom grammar scope steps (pending.map scope.root.below) progress =
      closeSearch (convertEach grammar scope (scope.searchFrom files steps pending).1 progress)
        (scope.searchFrom files steps pending).2 := by
  induction steps generalizing pending progress with
  | zero => rfl
  | succ steps ih =>
      cases pending with
      | nil => rfl
      | cons names rest =>
          have present := listed names (by simp)
          have later : ∀ other ∈ rest, Scope.Listed files home other :=
            fun other member => listed other (List.mem_cons_of_mem _ member)
          obtain ⟨before, reaches⟩ := reached
          simp only [List.map_cons, convertFrom, Scope.searchFrom,
            visit_reaches stands present reaches]
          cases visited : scope.visit files (scope.root.below names) with
          | error fault => rfl
          | ok visit =>
              cases visit with
              | pass => exact ih later ⟨before, reaches⟩
              | descend entries =>
                  simp only [Scope.visit_descend visited, ← List.map_append]
                  refine ih (fun other member => ?_) ⟨before, reaches⟩
                  rcases List.mem_append.mp member with child | member
                  next =>
                    exact Scope.listed_of_child stands.site.rooted stands.site.leads present.named
                      child
                  next => exact later other member
              | take =>
                  obtain ⟨more, onward⟩ := convertContents_reaches grammar
                    (stands.reaches reaches).site present.named present.some
                    (progress.files.read (scope.root.below names))
                  rw [← convertSource_eq] at onward
                  simp only [convertEach]
                  cases ended :
                      (convertSource grammar scope (scope.root.below names) progress).fault with
                  | some fault => simp [closeSearch, ended]
                  | none => exact ih later ⟨_, reaches.trans onward⟩

-- A run is the conversion of what a search in the beginning lists, until a conversion or the search
-- ends with a fault.
theorem convertAll_eq (stands : scope.Stands progress.files home) :
    convertAll grammar scope progress =
      closeSearch (convertEach grammar scope (scope.listing progress.files).1 progress)
        (scope.listing progress.files).2 := by
  rcases stands.input with input | ⟨name, bytes, named, input, leads, found⟩
  next =>
    simp only [convertAll, Scope.listing, stands.isDirectory input, Scope.startEntries_eq input]
    exact convertFrom_eq stands _ stands.listed_children ⟨[], .start⟩
  next =>
    have path : scope.root.below [scope.input.name] = scope.input := by
      simp [input, Path.below, Path.append, Path.name]
    simp only [convertAll, Scope.listing, Scope.isDirectory_of_file found, convertEach, closeSearch,
      path]
    cases ended : (convertSource grammar scope scope.input progress).fault with
    | some fault => simp [ended]
    | none => simp [← ended]

end ScriptTyping.Batch
