import ScriptTyping.Proofs.Batch.Runs
import ScriptTyping.Proofs.Settings.Validation

set_option autoImplicit false

namespace ScriptTyping.Batch

open FileSystem

variable {grammar : Grammar} {scope : Scope} {files after : FileSystem} {home : Location}
  {request : Request} {settings : Settings} {writes : List (Location × ByteArray)}

theorem loadSettings_eq (stands : scope.Stands files home) (input : scope.input = request.input) :
    loadSettings files request = Settings.load files scope.root request.overrides := by
  unfold loadSettings
  rw [← input]
  rcases stands.input with same | ⟨name, bytes, -, same, -, found⟩
  next => rw [stands.isDirectory same, same]
  next =>
    have parent : scope.input.parent = scope.root := by
      rw [same, Path.parent_below _ (by simp)]
      exact Path.below_nil _
    rw [Scope.isDirectory_of_file found, parent]

theorem loadSettings_of_directory (directory : files.isDirectory request.input = .ok true) :
    loadSettings files request = Settings.load files request.input request.overrides := by
  rw [loadSettings, directory]

theorem loadSettings_of_other (other : files.isDirectory request.input = .ok false) :
    loadSettings files request = Settings.load files request.input.parent request.overrides := by
  rw [loadSettings, other]

theorem loadSettings_of_section {start : Path} {fields : Entries}
    (led : loadSettings files request = Settings.load files start ⟨none, [], none⟩)
    (found : Settings.findSection files start = .ok fields) (lists : Settings.Lists fields) :
    loadSettings files request = (Settings.ofFields fields).mapError .invalid := by
  rw [led, Settings.load_of_section found, Settings.ofSection_of_lists lists]

theorem loadSettings_bare {start : Path}
    (led : loadSettings files request = Settings.load files start ⟨none, [], none⟩)
    (found : Settings.findSection files start = .ok []) :
    loadSettings files request = .ok ⟨Settings.defaultOutRoot, Settings.defaultSkipDirs,
      Settings.defaultExtensions, false⟩ :=
  loadSettings_of_section led found (by simp [Settings.Lists, Entries.get?])

theorem isName_outRoot (loaded : loadSettings files request = .ok settings) :
    IsName settings.outRoot := by
  unfold loadSettings at loaded
  split at loaded
  next => simp at loaded
  next => exact Settings.isName_outRoot_of_load loaded
  next => exact Settings.isName_outRoot_of_load loaded

theorem run_eq (loaded : loadSettings files request = .ok settings)
    (resolved : Scope.resolve files request.input settings = .ok scope) :
    run grammar files request = runScope grammar files scope := by
  simp only [run, loaded, resolved]

theorem resolve_outline (files : FileSystem) (input : Path) (settings : Settings) :
    Scope.resolve files.outline input settings = Scope.resolve files input settings := by
  unfold Scope.resolve
  rw [look_outline]
  cases files.look input with
  | error fault => rfl
  | ok found =>
      cases found with
      | none => rfl
      | some entry => cases entry <;> rfl

theorem resolve_reaches (stands : scope.Stands files home) (input : scope.input = request.input)
    (reaches : Reaches (home ++ [scope.settings.outRoot]) files writes after) :
    Scope.resolve after request.input settings = Scope.resolve files request.input settings := by
  rw [← resolve_outline after, ← resolve_outline files, ← input]
  unfold Scope.resolve
  rw [stands.look_reaches reaches]

-- The run that lists all sources before it converts the first.
def runListed (grammar : Grammar) (files : FileSystem) (scope : Scope) : Run :=
  let (found, fault) := scope.listing files
  let ran := closeSearch (convertEach grammar scope found (announce scope ⟨files, #[], []⟩)) fault
  match ran.fault with
  | some fault => ⟨ran.progress.files, ran.progress.notices, .fault fault⟩
  | none =>
      let notices := ran.progress.notices ++ (summary ran.progress.results).toArray
      ⟨ran.progress.files, notices, .exit 0⟩

theorem runScope_eq_runListed (stands : scope.Stands files home) :
    runScope grammar files scope = runListed grammar files scope := by
  unfold runScope
  rw [convertAll_announced stands]
  rfl

theorem elsewhere_of_sealed (site : Site files scope.root home scope.settings.outRoot)
    (closed : files.volume.Sealed (home ++ [scope.settings.outRoot]))
    (reaches : Reaches (home ++ [scope.settings.outRoot]) files writes after) :
    after.without [home ++ [scope.settings.outRoot]] =
      files.without [home ++ [scope.settings.outRoot]] := by
  have order : (after.without [home ++ [scope.settings.outRoot]]).locations =
      (files.without [home ++ [scope.settings.outRoot]]).locations := by
    have outlines := congrArg FileSystem.locations reaches.elsewhere
    rwa [← outline_without, ← outline_without, locations_outline, locations_outline] at outlines
  refine eq_of_at? (site.rooted.once.sublist (List.filter_sublist.map _)) reaches.keeps.volume order
    fun location => ?_
  cases hidden : covers [home ++ [scope.settings.outRoot]] location with
  | false =>
      rw [at?_without hidden, at?_without hidden]
      refine reaches.spared (closed.spares fun within => ?_)
      rw [covers_iff.mpr ⟨_, by simp, within⟩] at hidden
      exact Bool.noConfusion hidden
  | true =>
      have absent (files : FileSystem) :
          (files.without [home ++ [scope.settings.outRoot]]).at? location = none := by
        refine at?_eq_none.mpr fun member => ?_
        obtain ⟨entry, kept⟩ := mem_locations.mp member
        simpa [hidden] using (List.mem_filter.mp kept).2
      rw [absent, absent]

theorem loadSettings_reaches (stands : scope.Stands files home) (input : scope.input = request.input)
    (closed : files.volume.Sealed (home ++ [scope.settings.outRoot]))
    (reaches : Reaches (home ++ [scope.settings.outRoot]) files writes after) :
    loadSettings after request = loadSettings files request := by
  rw [loadSettings_eq (stands.reaches reaches) input, Settings.load_reaches stands.site closed reaches,
    ← loadSettings_eq stands input]

theorem run_again (stands : scope.Stands files home)
    (loaded : loadSettings files request = .ok scope.settings)
    (resolved : Scope.resolve files request.input scope.settings = .ok scope)
    (input : scope.input = request.input)
    (closed : files.volume.Sealed (home ++ [scope.settings.outRoot]))
    (granted : files.volume.Rewritable (home ++ [scope.settings.outRoot]))
    (ended : (run grammar files request).ending = .exit 0) :
    scope.sources (run grammar files request).files = scope.sources files ∧
      run grammar (run grammar files request).files request = run grammar files request := by
  rw [run_eq loaded resolved] at ended ⊢
  obtain ⟨jobs, after, completes⟩ := completes_of_exit stands closed ended
  have reaches := completes.reaches stands
  have standsAfter := stands.reaches reaches
  rw [completes_files stands closed completes]
  have loadedAfter : loadSettings after request = .ok scope.settings :=
    (loadSettings_reaches stands input closed reaches).trans loaded
  have resolvedAfter : Scope.resolve after request.input scope.settings = .ok scope :=
    (resolve_reaches stands input reaches).trans resolved
  have announced : announcement scope after = announcement scope files := by
    simp only [announcement, stands.isDirectory_reaches reaches]
  refine ⟨?_, ?_⟩
  next => rw [standsAfter.sources_eq, stands.sources_eq, stands.listing_reaches reaches]
  next =>
    rw [run_eq loadedAfter resolvedAfter, runScope_completes stands closed completes,
      runScope_completes standsAfter (reaches.keeps.volume ▸ closed)
        (completes_again stands closed granted completes), announced]

def blankGrammar : Grammar := fun text =>
  .node ⟨"program", text.utf8ByteSize, text.utf8ByteSize, none, false, false, false⟩ []

def twins : FileSystem where
  entries := [(["in"], .directory), (["in", "a.ts"], .file ⟨#[10]⟩), (["in", "a.js"], .file ⟨#[]⟩)]

def twinsRequest : Request := ⟨⟨"", ["in"]⟩, ⟨none, [], none⟩⟩

def twinsScope : Scope :=
  ⟨⟨"", ["in"]⟩, ⟨"", ["in"]⟩,
    ⟨"tsConverter", Settings.defaultSkipDirs, Settings.defaultExtensions, false⟩⟩

def untypedTwin : Job :=
  ⟨["a.js"], (convertBytes blankGrammar ⟨#[]⟩).toOption.get (by decide +kernel)⟩

def typedTwin : Job :=
  ⟨["a.ts"], (convertBytes blankGrammar ⟨#[10]⟩).toOption.get (by decide +kernel)⟩

def twinsJobs : List Job := [untypedTwin, typedTwin]

theorem ok_of_toOption {ε α : Type} {result : Except ε α} {found : α}
    (read : result.toOption = some found) : result = .ok found := by
  cases result with
  | error fault => simp [Except.toOption] at read
  | ok other => simpa [Except.toOption] using read

theorem plain_default : Volume.Plain {} := ⟨fun _ => rfl, fun _ _ => rfl⟩

theorem proper_twins : twins.Proper :=
  ⟨.of_single (fun _ => rfl) (by decide) (by decide) rfl, plain_default⟩

theorem loadSettings_twins : loadSettings twins twinsRequest = .ok twinsScope.settings :=
  loadSettings_bare (loadSettings_of_directory rfl) rfl

theorem resolve_twins :
    Scope.resolve twins twinsRequest.input twinsScope.settings = .ok twinsScope := rfl

theorem stands_twins : twinsScope.Stands twins ["in"] :=
  ⟨⟨proper_twins.toRooted, rfl, rfl, by decide⟩, .inl rfl⟩

theorem accepts_default {settings : Settings} {path : Path}
    (default : settings.extensions = Settings.defaultExtensions)
    (ending : path.extension ∈ Settings.defaultExtensions) : settings.accepts path = true := by
  rw [Settings.accepts, default, Settings.lower_default ending]
  exact List.contains_iff_mem.mpr ending

theorem listing_twins : twinsScope.listing twins = (twinsJobs.map (·.names), none) := by
  have names : twins.list (twinsScope.root.below []) = ["a.js", "a.ts"] := by
    have unordered : twins.entries.filterMap (nameBelow? ["in"]) = ["a.ts", "a.js"] := by decide
    have leads : twins.locate (twinsScope.root.below []) = .ok ["in"] := rfl
    simp only [list, leads, unordered]
    simp [List.mergeSort]
  have directory : twins.isDirectory twinsScope.input = .ok true := rfl
  have first : twinsScope.visit twins (twinsScope.root.below ["a.js"]) = .ok .take :=
    Scope.visit_take (by decide) rfl (accepts_default rfl (by decide +kernel))
  have second : twinsScope.visit twins (twinsScope.root.below ["a.ts"]) = .ok .take :=
    Scope.visit_take (by decide) rfl (accepts_default rfl (by decide +kernel))
  have budget : Scope.stepBudget twins = 4 := rfl
  simp [Scope.listing, directory, Scope.childrenOf, names, budget, Scope.searchFrom, first,
    second, twinsJobs, untypedTwin, typedTwin]

theorem converts_twins : ∀ job ∈ twinsJobs, job.Converts blankGrammar twinsScope twins := by
  intro job member
  rcases List.mem_cons.mp member with rfl | member
  next => exact ⟨⟨#[]⟩, rfl, ok_of_toOption (by rw [untypedTwin, Option.some_get])⟩
  next =>
    obtain rfl := List.mem_singleton.mp member
    exact ⟨⟨#[10]⟩, rfl, ok_of_toOption (by rw [typedTwin, Option.some_get])⟩

theorem completes_twins : ∃ after, Completes blankGrammar twinsScope twins twinsJobs after ∧
    ((after.read (twinsScope.root.below ["tsConverter", "a.ts"])).toOption.map (·.toList)) =
      some [10] := by
  have read : ((deliverAll twinsScope twinsJobs twins).toOption.bind fun after =>
      (after.read (twinsScope.root.below ["tsConverter", "a.ts"])).toOption.map (·.toList)) =
      some [10] := by decide +kernel
  obtain ⟨after, delivers, held⟩ := Option.bind_eq_some_iff.mp read
  exact ⟨after, ⟨listing_twins, converts_twins, ok_of_toOption delivers⟩, held⟩

theorem ended_twins : (run blankGrammar twins twinsRequest).ending = .exit 0 := by
  obtain ⟨after, completes, -⟩ := completes_twins
  rw [run_eq loadSettings_twins resolve_twins, runScope_completes stands_twins (plain_default.sealed _) completes]

def nullNamed : FileSystem where
  entries :=
    [(["in"], .directory), (["in", "a.js"], .file ⟨#[]⟩),
      (["in", Settings.fileName],
        .file "[tool.ts_converter]\nout_root = \"a\\u0000b\"\n".toUTF8)]

-- The output is there before the run, and another name of its file stands elsewhere.
def linkedOutput : FileSystem where
  entries :=
    [(["in"], .directory), (["in", "a.js"], .file ⟨#[]⟩), (["in", "tsConverter"], .directory),
      (["in", "tsConverter", "a.ts"], .file ⟨#[10]⟩), (["kept"], .file ⟨#[10]⟩)]
  volume :=
    { link? := fun location =>
        if location = ["in", "tsConverter", "a.ts"] ∨ location = ["kept"] then some 0 else none }

-- What is new in the output directory cannot be opened again.
def lockedOutput : FileSystem where
  entries := [(["in"], .directory), (["in", "a.js"], .file ⟨#[]⟩)]
  volume :=
    { refuses := fun access location => access = .write ∧ ["in", "tsConverter"] <+: location }

def untypedRequest : Request := ⟨⟨"", ["in", "a.js"]⟩, ⟨none, [], none⟩⟩

def untypedScope (outRoot : String) : Scope :=
  ⟨⟨"", ["in", "a.js"]⟩, ⟨"", ["in"]⟩,
    ⟨outRoot, Settings.defaultSkipDirs, Settings.defaultExtensions, false⟩⟩

theorem resolve_untyped (outRoot : String) (files : FileSystem)
    (found : files.look untypedRequest.input = .ok (some (.file ⟨#[]⟩))) :
    Scope.resolve files untypedRequest.input (untypedScope outRoot).settings =
      .ok (untypedScope outRoot) := by
  have accepted : (untypedScope outRoot).settings.accepts untypedRequest.input = true :=
    accepts_default rfl (by decide +kernel)
  simp only [Scope.resolve, found, accepted, if_true]
  rfl

theorem run_untyped {files : FileSystem} {outRoot : String}
    (loaded : loadSettings files untypedRequest = .ok (untypedScope outRoot).settings)
    (found : files.look untypedRequest.input = .ok (some (.file ⟨#[]⟩))) :
    run blankGrammar files untypedRequest =
      runScope blankGrammar files (untypedScope outRoot) :=
  run_eq loaded (resolve_untyped outRoot files found)

def Ending.fileFault? : Ending → Option FileFault
  | .fault (.files cause) => some cause
  | _ => none

theorem Ending.eq_of_fileFault? {ending : Ending} {cause : FileFault}
    (found : ending.fileFault? = some cause) : ending = .fault (.files cause) := by
  unfold fileFault? at found
  split at found
  next => rw [Option.some.inj found]
  next => simp at found

theorem rooted_linkedOutput : linkedOutput.Rooted := by
  refine ⟨by decide, by decide, rfl, fun one other shared => ?_⟩
  have named (location : Location) (number : Nat)
      (link : linkedOutput.volume.link? location = some number) :
      linkedOutput.at? location = some (.file ⟨#[10]⟩) := by
    simp only [linkedOutput] at link
    split at link
    next places => rcases places with rfl | rfl <;> rfl
    next => simp at link
  obtain ⟨number, first, second⟩ := Volume.shares_iff.mp shared
  exact ⟨_, named one number first, named other number second⟩

theorem loadSettings_nullNamed :
    loadSettings nullNamed untypedRequest = .ok (untypedScope "a\x00b").settings := by
  have other : nullNamed.isDirectory untypedRequest.input = .ok false := rfl
  have found : Settings.findSection nullNamed untypedRequest.input.parent =
      .ok [("out_root", .text "a\x00b")] :=
    Settings.eq_of_holdsOne (fun _ => Settings.eq_of_isText) (by decide +kernel)
  have lists : Settings.Lists [("out_root", .text "a\x00b")] := by
    simp [Settings.Lists, Settings.listKeys, Entries.get?]
  have checked : (Settings.ofFields [("out_root", .text "a\x00b")]).mapError Settings.LoadFault.invalid =
      .ok (untypedScope "a\x00b").settings := rfl
  have led := loadSettings_of_other other
  exact (loadSettings_of_section led found lists).trans checked

theorem loadSettings_linkedOutput :
    loadSettings linkedOutput untypedRequest = .ok (untypedScope "tsConverter").settings :=
  loadSettings_bare (loadSettings_of_other rfl) rfl

theorem loadSettings_lockedOutput :
    loadSettings lockedOutput untypedRequest = .ok (untypedScope "tsConverter").settings :=
  loadSettings_bare (loadSettings_of_other rfl) rfl

theorem rooted_lockedOutput : lockedOutput.Rooted :=
  .of_single (fun _ => rfl) (by decide) (by decide) rfl

theorem endings_lockedOutput :
    let ran := run blankGrammar lockedOutput untypedRequest
    ran.ending = .exit 0 ∧
      (run blankGrammar ran.files untypedRequest).ending = .fault (.files .denied) := by
  have first := run_untyped loadSettings_lockedOutput rfl
  have loaded : loadSettings (runScope blankGrammar lockedOutput (untypedScope "tsConverter")).files
      untypedRequest = .ok (untypedScope "tsConverter").settings := by
    obtain ⟨-, input, home, stands⟩ := Scope.stands_of_resolve rooted_lockedOutput
      (isName_outRoot loadSettings_lockedOutput) (resolve_untyped "tsConverter" lockedOutput rfl)
    obtain ⟨writes, reaches⟩ := runScope_reaches blankGrammar stands
    have closed : lockedOutput.volume.Sealed (home ++ ["tsConverter"]) := fun _ _ _ _ => rfl
    exact (loadSettings_reaches stands input closed reaches).trans loadSettings_lockedOutput
  have second := run_untyped loaded rfl
  have ended : (match (runScope blankGrammar lockedOutput (untypedScope "tsConverter")).ending with
      | .exit code => some code
      | _ => none) = some 0 := by decide +kernel
  simp only [first, second]
  refine ⟨?_, Ending.eq_of_fileFault? (by decide +kernel)⟩
  split at ended
  next code same => rw [same, Option.some.inj ended]
  next => simp at ended

end ScriptTyping.Batch
