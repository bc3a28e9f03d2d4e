import ScriptTyping.Proofs.Batch.Containment
import ScriptTyping.Proofs.Parse.Lossless
import ScriptTyping.Proofs.Rule.Totality

set_option autoImplicit false

namespace ScriptTyping

open FileSystem

structure Grammar.Sound (grammar : Grammar) : Prop where
  ordered : ∀ text, (grammar text).label.hasError = false →
    LeavesOrdered (parsedLeaves (grammar text))
  whole : ∀ text, (grammar text).label.hasError = false → ∀ leaf ∈ parsedLeaves (grammar text),
    ¬Utf8.Splits text leaf.start ∧ ¬Utf8.Splits text leaf.stop
  convertible : ∀ text, (grammar text).label.hasError = false → ∀ tree,
    readParse text (grammar text) = .ok tree → Rule.Convertible tree

namespace Batch

variable {grammar : Grammar} {scope : Scope} {files after : FileSystem} {home location : Location}
  {settings : Settings} {job : Job} {jobs : List Job} {names : List String}
  {cut : List Location} {writes : List (Location × ByteArray)}

def Unusable (grammar : Grammar) (bytes : ByteArray) : Prop :=
  match sourceText bytes with
  | .error _ => True
  | .ok text => (grammar text).label.hasError = true

theorem conversion_failed {source : String} {parse : ParseTree}
    (damaged : parse.label.hasError = true) :
    ∃ conversion, Conversion.run source parse = .ok conversion ∧ conversion.success = false := by
  have read : readParse source parse = .error (.malformed (describeDamage source.toUTF8 parse)) := by
    simp [readParse, damaged]
  simp only [Conversion.run, read]
  exact ⟨_, rfl, rfl⟩

theorem conversion_succeeded {source : String} {parse : ParseTree} {tree : Node}
    (read : readParse source parse = .ok tree) (convertible : Rule.Convertible tree) :
    ∃ conversion, Conversion.run source parse = .ok conversion ∧ conversion.success = true := by
  have complete (session : Session) : (Rule.walk Rule.all tree session).fault = none :=
    ((Rule.safe_table Rule.all).walk_safe (Rule.stepBudget tree) convertible.admissible
      session).resolve_right (Rule.walk_never_out_of_steps Rule.all tree session)
  simp only [Conversion.run, read, Conversion.transform]
  rw [complete]
  exact ⟨_, rfl, rfl⟩

theorem convertBytes_total (sound : grammar.Sound) (bytes : ByteArray) :
    ∃ conversion, convertBytes grammar bytes = .ok conversion ∧
      (conversion.success = false ↔ Unusable grammar bytes) := by
  unfold convertBytes Unusable
  cases decoded : sourceText bytes with
  | error fault => exact ⟨undecodable fault, rfl, by simp [undecodable]⟩
  | ok text =>
      cases damaged : (grammar text).label.hasError with
      | true =>
          obtain ⟨conversion, ran, failed⟩ := conversion_failed damaged
          exact ⟨conversion, ran, by simp [failed, damaged]⟩
      | false =>
          have boundary : ∀ leaf ∈ parsedLeaves (grammar text),
              Utf8.OnBoundary text leaf.start ∧ Utf8.OnBoundary text leaf.stop := by
            intro leaf member
            obtain ⟨start, stop⟩ := sound.whole text damaged leaf member
            simpa [Utf8.splits_iff] using And.intro start stop
          obtain ⟨tree, hydrated, -⟩ :=
            hydrate_prints text (grammar text) (sound.ordered text damaged) boundary
          have read : readParse text (grammar text) = .ok tree := by
            simp only [readParse, damaged, Bool.false_eq_true, if_false]
            exact mapError_ok.mpr hydrated
          obtain ⟨conversion, ran, succeeded⟩ :=
            conversion_succeeded read (sound.convertible text damaged tree read)
          exact ⟨conversion, ran, by simp [succeeded, damaged]⟩

theorem file_of_taken (taken : scope.visit files (scope.root.below names) = .ok .take) :
    ∃ location bytes, files.locate (scope.root.below names) = .ok location ∧
      files.isDirectoryAt location = false ∧ files.at? location = some (.file bytes) := by
  rw [Scope.visit_below] at taken
  split at taken
  next => simp at taken
  next =>
    split at taken
    next => simp at taken
    next => simp at taken
    next bytes found =>
      obtain ⟨location, leads, free, present⟩ := look_file found
      exact ⟨location, bytes, leads, free, present⟩
    next => simp at taken

theorem read_of_taken (plain : files.volume.Plain) (taken : scope.visit files (scope.root.below names) = .ok .take) :
    ∃ bytes, files.read (scope.root.below names) = .ok bytes := by
  obtain ⟨location, bytes, leads, -, present⟩ := file_of_taken taken
  exact ⟨bytes, by simp [FileSystem.read, leads, present, plain.granted, bind, Except.bind, pure,
    Except.pure]⟩

theorem jobs_of_reads (sound : grammar.Sound) {found : List (List String)}
    (reads : ∀ names ∈ found, ∃ bytes, files.read (scope.root.below names) = .ok bytes) :
    ∃ jobs : List Job, jobs.map (·.names) = found ∧
      ∀ job ∈ jobs, job.Converts grammar scope files := by
  induction found with
  | nil => exact ⟨[], rfl, by simp⟩
  | cons names rest ih =>
      obtain ⟨jobs, all, converts⟩ :=
        ih fun other member => reads other (List.mem_cons_of_mem _ member)
      obtain ⟨bytes, read⟩ := reads names (by simp)
      obtain ⟨conversion, converted, -⟩ := convertBytes_total sound bytes
      refine ⟨⟨names, conversion⟩ :: jobs, by simp [all], fun job member => ?_⟩
      rcases List.mem_cons.mp member with rfl | member
      next => exact ⟨bytes, read, converted⟩
      next => exact converts job member

theorem Job.failed_iff (sound : grammar.Sound) (converts : job.Converts grammar scope files) :
    job.conversion.success = false ↔
      ∃ bytes, files.read (job.source scope) = .ok bytes ∧ Unusable grammar bytes := by
  obtain ⟨bytes, read, converted⟩ := converts
  obtain ⟨conversion, same, failed⟩ := convertBytes_total sound bytes
  obtain rfl := Except.ok.inj (converted.symm.trans same)
  rw [failed]
  constructor
  next => exact fun unusable => ⟨bytes, read, unusable⟩
  next =>
    rintro ⟨other, again, unusable⟩
    exact Except.ok.inj (read.symm.trans again) ▸ unusable

theorem searchFrom_fault (steps : Nat) (pending : List (List String)) {fault : SearchFault}
    (ended : (scope.searchFrom files steps pending).2 = some fault) :
    ∃ cause, fault = .files cause := by
  induction steps generalizing pending with
  | zero => simp [Scope.searchFrom] at ended
  | succ steps ih =>
      cases pending with
      | nil => simp [Scope.searchFrom] at ended
      | cons names rest =>
          simp only [Scope.searchFrom] at ended
          split at ended
          next cause stopped =>
            obtain rfl := Option.some.inj ended
            rw [Scope.visit_below] at stopped
            split at stopped
            next => simp at stopped
            next =>
              split at stopped
              next cause _ => exact ⟨cause, (Except.error.inj stopped).symm⟩
              next => simp at stopped
              next => split at stopped <;> simp at stopped
              next => simp at stopped
          next => exact ih _ ended
          next => exact ih _ ended
          next => exact ih _ ended

theorem listing_fault {fault : SearchFault} (ended : (scope.listing files).2 = some fault) :
    ∃ cause, fault = .files cause := by
  unfold Scope.listing at ended
  split at ended
  next => exact searchFrom_fault _ _ ended
  next => simp at ended

theorem taken_of_listing (stands : scope.Stands files home) (input : scope.input = scope.root)
    (found : names ∈ (scope.listing files).1) :
    Scope.Listed files home names ∧ scope.visit files (scope.root.below names) = .ok .take := by
  unfold Scope.listing at found
  rw [stands.isDirectory input] at found
  exact Scope.searchFrom_found stands.site.rooted stands.site.leads _ stands.listed_children names
    found

-- Only a fault of the file system can end a run on a directory early.
theorem completes_of_unfaulted (sound : grammar.Sound) (stands : scope.Stands files home)
    (plain : files.volume.Plain)
    (input : scope.input = scope.root)
    (unfaulted : ∀ fault, (runScope grammar files scope).ending ≠ .fault (.files fault)) :
    ∃ jobs after, Completes grammar scope files jobs after := by
  obtain ⟨jobs, all, converts⟩ := jobs_of_reads sound fun names found =>
    read_of_taken plain (taken_of_listing stands input found).2
  have closed := plain.sealed (home ++ [scope.settings.outRoot])
  have named : Named jobs := by
    intro job member
    exact stands.listing_named job.names (all ▸ List.mem_map_of_mem member)
  cases delivers : deliverAll scope jobs files with
  | error fault =>
      have untouched : (announce scope ⟨files, #[], []⟩).files = files := by simp only [announce_eq]
      have stops : (convertKnown grammar scope files (scope.listing files).1
          (announce scope ⟨files, #[], []⟩)).fault = some (.files fault) := by
        rw [← all]
        exact convertKnown_error converts named (untouched.symm ▸ delivers)
      refine absurd ?_ (unfaulted fault)
      simp [runScope, convertAll_known stands closed, closeSearch, stops]
  | ok after =>
      cases searched : (scope.listing files).2 with
      | none => exact ⟨jobs, after, Prod.ext all.symm searched, converts, delivers⟩
      | some fault =>
          obtain ⟨cause, rfl⟩ := listing_fault searched
          have untouched : (announce scope ⟨files, #[], []⟩).files = files := by
            simp only [announce_eq]
          have ended : (convertKnown grammar scope files (scope.listing files).1
              (announce scope ⟨files, #[], []⟩)).fault = none := by
            rw [← all, convertKnown_ok converts named (untouched.symm ▸ delivers)]
          refine absurd ?_ (unfaulted cause)
          simp [runScope, convertAll_known stands closed, closeSearch, ended, searched,
            RunFault.ofSearch]

def tally (converted failed : Nat) (rows : List ReportRow) : List Notice :=
  if converted + failed = 0 then [.record .warning "No convertible files found."]
  else if failed = 0 then
    [.record .success ("Batch Complete: " ++ toString converted ++ "/" ++
      toString (converted + failed) ++ " files converted.")]
  else
    [.report rows,
     .line ("\n[bold]Summary:[/bold] " ++ toString converted ++ " Converted, " ++
       toString failed ++ " Failed.")]

theorem summary_eq (results : Results) :
    summary results =
      tally (results.countP fun entry => entry.2.success)
        (results.countP fun entry => !entry.2.success)
        ((results.filter fun entry => !entry.2.success).map reportRow) := by
  have total : results.length = (results.countP fun entry => entry.2.success) +
      results.countP fun entry => !entry.2.success := by
    rw [List.length_eq_countP_add_countP fun entry : String × Conversion => entry.2.success]
    simp
  have failed : (results.filter fun entry => !entry.2.success).length =
      results.countP fun entry => !entry.2.success := List.countP_eq_length_filter.symm
  have none : (results.filter fun entry => !entry.2.success).isEmpty = true ↔
      (results.countP fun entry => !entry.2.success) = 0 := by
    rw [← failed, List.isEmpty_iff, List.length_eq_zero_iff]
  have converted : results.length - (results.countP fun entry => !entry.2.success) =
      results.countP fun entry => entry.2.success := by omega
  simp only [summary, tally, failed, converted, none]
  rw [total]

theorem put_new {name : String} {result : Conversion} {results : Results}
    (new : name ∉ results.map (·.1)) : Results.put name result results = results ++ [(name, result)] := by
  induction results with
  | nil => rfl
  | cons entry rest ih =>
      simp only [List.map_cons, List.mem_cons, not_or] at new
      have apart : ¬entry.1 = name := fun same => new.1 same.symm
      simp [Results.put, apart, ih new.2]

theorem resultsFrom_eq (jobs : List Job) (results : Results)
    (apart : (results.map (·.1) ++ jobs.map (·.key)).Nodup) :
    resultsFrom jobs results = results ++ jobs.map fun job => (job.key, job.conversion) := by
  induction jobs generalizing results with
  | nil => simp [resultsFrom]
  | cons job rest ih =>
      have new : job.key ∉ results.map (·.1) := by
        intro member
        exact (List.nodup_append.mp apart).2.2 _ member _ (by simp) rfl
      have later := ih (results ++ [(job.key, job.conversion)]) (by simpa using apart)
      simp only [resultsFrom, List.foldl_cons, put_new new] at later ⊢
      rw [later]
      simp

theorem key_inj {other : Job} (named : ∀ name ∈ job.names, IsName name) (some : job.names ≠ [])
    (namedOther : ∀ name ∈ other.names, IsName name) (someOther : other.names ≠ [])
    (same : job.key = other.key) : job.names = other.names := by
  have texts {names : List String} (some : names ≠ []) :
      (Path.mk "" names).toText = String.intercalate "/" names := by
    have full : names.isEmpty = false := by simpa using some
    simp [Path.toText, full]
  have split {names : List String} (named : ∀ name ∈ names, IsName name) (some : names ≠ []) :
      (String.intercalate "/" names).toList.splitOn '/' = names.map String.toList := by
    rw [String.toList_intercalate]
    refine List.splitOn_intercalate '/' (fun part member => ?_) (by simpa using some)
    obtain ⟨name, present, rfl⟩ := List.mem_map.mp member
    exact (named name present).whole
  have parts := congrArg (fun text => text.toList.splitOn '/') same
  simp only [Job.key, texts some, texts someOther, split named some,
    split namedOther someOther] at parts
  exact (List.map_injective_iff.mpr fun _ _ => String.toList_inj.mp) parts

theorem Completes.results (completes : Completes grammar scope files jobs after)
    (stands : scope.Stands files home) :
    resultsFrom jobs [] = jobs.map fun job => (job.key, job.conversion) := by
  have named := completes.named stands
  have once := completes.once stands
  refine resultsFrom_eq jobs [] ?_
  simp only [List.map_nil, List.nil_append]
  refine List.Nodup.map_on (fun job member other present same => ?_) once.of_map
  refine List.inj_on_of_nodup_map once member present ?_
  obtain ⟨each, some⟩ := named job member
  obtain ⟨eachOther, someOther⟩ := named other present
  exact key_inj each some eachOther someOther same

theorem Completes.summary (completes : Completes grammar scope files jobs after)
    (stands : scope.Stands files home) :
    summary (resultsFrom jobs []) =
      tally (jobs.countP fun job => job.conversion.success)
        (jobs.countP fun job => !job.conversion.success)
        ((jobs.filter fun job => !job.conversion.success).map
          fun job => reportRow (job.key, job.conversion)) := by
  rw [completes.results stands, summary_eq]
  simp [List.countP_map, List.filter_map, Function.comp_def]

theorem foreign_of_failed (stands : scope.Stands files home) (input : scope.input = scope.root)
    (completes : Completes grammar scope files jobs after)
    (failed : ∀ location ∈ cut, ∃ job ∈ jobs, location = home ++ job.names) :
    Foreign files home scope.settings.outRoot cut := by
  have taken (job : Job) (member : job ∈ jobs) : Scope.Listed files home job.names ∧
      scope.visit files (scope.root.below job.names) = .ok .take :=
    taken_of_listing stands input (completes.mem_listing member)
  refine ⟨fun place member => ?_, fun names => ?_⟩
  next =>
    obtain ⟨job, present, rfl⟩ := failed place member
    obtain ⟨listed, visited⟩ := taken job present
    obtain ⟨location, bytes, leads, free, held⟩ := file_of_taken visited
    obtain rfl := stands.site.location_eq listed.named leads
    exact ⟨free, by simp [held]⟩
  next =>
    by_contra hidden
    obtain ⟨place, member, within⟩ := covers_iff.mp (by simpa using hidden)
    obtain ⟨job, present, rfl⟩ := failed place member
    obtain ⟨listed, visited⟩ := taken job present
    -- The source would have to be the output directory or below it, where no search goes.
    have inside : job.names <+: scope.settings.outRoot :: names :=
      (List.prefix_append_right_inj home).mp within
    have seen := Scope.taken_seen home visited
    cases whole : job.names with
    | nil => exact listed.some whole
    | cons first rest =>
        rw [whole, List.cons_prefix_cons] at inside
        rw [whole, inside.1, Scope.seen_place.mpr ⟨rest, rfl⟩] at seen
        exact Bool.noConfusion seen

theorem cut_of_hidden (stands : scope.Stands files home)
    (foreign : Foreign files home scope.settings.outRoot cut) (listed : Scope.Listed files home names)
    (hidden : Scope.seen cut home names = false) : home ++ names ∈ cut := by
  obtain ⟨entry, member⟩ := mem_locations.mp listed.present
  exact foreign.covered stands.site.rooted (at?_of_mem stands.site.rooted.once member)
    (by simpa [Scope.seen] using hidden)

theorem listing_without (stands : scope.Stands files home) (plain : files.volume.Plain)
    (input : scope.input = scope.root)
    (completes : Completes grammar scope files jobs after)
    (failed : ∀ location ∈ cut, ∃ job ∈ jobs, location = home ++ job.names) :
    scope.listing (files.without cut) =
      ((jobs.map (·.names)).filter (Scope.seen cut home), none) := by
  have foreign := foreign_of_failed stands input completes failed
  have alike := foreign.alike stands.site
  have site := stands.site.without foreign plain
  have standsLess : scope.Stands (files.without cut) home := ⟨site, .inl input⟩
  have closed : scope.Closed files home cut := by
    intro names listed hidden
    obtain ⟨job, present, same⟩ := failed _ (cut_of_hidden stands foreign listed hidden)
    obtain rfl := List.append_cancel_left same
    exact .inr (taken_of_listing stands input (completes.mem_listing present)).2
  have visible (names : List String) (listed : Scope.Listed (files.without cut) home names) :
      Scope.seen cut home names = true := by
    obtain ⟨entry, member⟩ := mem_locations.mp listed.present
    exact (List.mem_filter.mp member).2
  have closedLess : scope.Closed (files.without cut) home cut := by
    intro names listed hidden
    rw [visible names listed] at hidden
    exact Bool.noConfusion hidden
  have open_ : Scope.seen cut home [] = true := by
    have apart := foreign.apart []
    have above := uncovered_of_append [scope.settings.outRoot] apart
    simp [Scope.seen, above]
  have same := Scope.searchFrom_alike alike stands.site.rooted site.rooted closed closedLess
    stands.underway standsLess.underway
    (Scope.children_alike alike (by simp [Ahead]) open_)
  have all : (scope.listing files) = (jobs.map (·.names), none) := completes.listed
  unfold Scope.listing at all ⊢
  rw [stands.isDirectory input] at all
  rw [standsLess.isDirectory input]
  simp only at all ⊢
  rw [all] at same
  refine Prod.ext ?_ same.2
  rw [← same.1]
  refine (List.filter_eq_self.mpr fun names found => visible names ?_).symm
  exact (Scope.searchFrom_found site.rooted site.leads _ standsLess.listed_children names found).1

theorem completes_without (stands : scope.Stands files home) (plain : files.volume.Plain)
    (input : scope.input = scope.root)
    (completes : Completes grammar scope files jobs after)
    (failed : ∀ location ∈ cut, ∃ job ∈ jobs, location = home ++ job.names ∧
      job.conversion.success = false) :
    Completes grammar scope (files.without cut)
      (jobs.filter fun job => Scope.seen cut home job.names) (after.without cut) := by
  have foreign := foreign_of_failed stands input completes
    fun location member => (failed location member).imp fun job found => ⟨found.1, found.2.1⟩
  have named := completes.named stands
  refine ⟨?_, fun job member => ?_, ?_⟩
  next =>
    rw [listing_without stands plain input completes
      fun location member => (failed location member).imp fun job found => ⟨found.1, found.2.1⟩]
    simp [List.filter_map, Function.comp_def]
  next =>
    obtain ⟨present, open_⟩ := List.mem_filter.mp member
    obtain ⟨bytes, read, converted⟩ := completes.converts job present
    refine ⟨bytes, ?_, converted⟩
    rw [← read]
    have ahead := ahead_of_named (named job present).1
    have seen : covers cut (home ++ job.names) = false := by simpa [Scope.seen] using open_
    refine read_congr rfl ((foreign.alike stands.site).locate ahead seen) fun location leads => ?_
    exact at?_without (location_below stands.site.leads ahead leads ▸ seen)
  next =>
    rw [deliverAll_filter fun job member hidden => ?_,
      deliverAll_without stands.site foreign named, completes.delivers]
    next => rfl
    next =>
      obtain ⟨listed, -⟩ := taken_of_listing stands input (completes.mem_listing member)
      obtain ⟨other, present, same, unusable⟩ :=
        failed _ (cut_of_hidden stands foreign listed hidden)
      rwa [List.inj_on_of_nodup_map (completes.once stands) member present
        (List.append_cancel_left same)]

theorem changesSince_without (site : Site files scope.root home scope.settings.outRoot)
    (plain : files.volume.Plain)
    (foreign : Foreign files home scope.settings.outRoot cut)
    (reaches : Reaches (home ++ [scope.settings.outRoot]) files writes after) :
    (after.without cut).changesSince (files.without cut) = after.changesSince files := by
  have siteAfter := site.reaches reaches
  simp only [changesSince, without, List.filterMap_filter]
  refine List.filterMap_congr fun entry member => ?_
  cases hidden : covers cut entry.1 with
  | false =>
      have same : (files.without cut).at? entry.1 = files.at? entry.1 := at?_without hidden
      simp only [changedBytes?, Bool.not_false, if_true]
      simp only [without] at same
      rw [same]
  | true =>
      have held := at?_of_mem siteAfter.rooted.once member
      have covered := (foreign.reaches reaches).covered siteAfter.rooted held hidden
      obtain ⟨free, present⟩ := foreign.file _ covered
      obtain ⟨old, found⟩ := Option.isSome_iff_exists.mp present
      have stays : after.at? entry.1 = some old := by
        refine (reaches.spared ((plain.sealed _).spares fun within => ?_)).trans found
        obtain ⟨names, here⟩ := within
        have apart := foreign.apart names
        rw [← here, List.append_assoc, List.singleton_append, apart] at hidden
        exact Bool.noConfusion hidden
      have same : entry.2 = old := Option.some.inj (held.symm.trans stays)
      obtain ⟨location, kind⟩ := entry
      obtain rfl : kind = old := same
      cases kind with
      | directory => simp [changedBytes?]
      | special => simp [changedBytes?]
      | file bytes => simp [changedBytes?, found]

def strictGrammar : Grammar := fun text =>
  if text = ")" then
    .node ⟨"program", 0, 1, none, false, false, true⟩
      [.node ⟨"ERROR", 0, 1, none, true, false, true⟩
        [.node ⟨")", 0, 1, none, false, false, false⟩ []]]
  else blankGrammar text

def mixed : FileSystem where
  entries :=
    [(["in"], .directory), (["in", "a.js"], .file ⟨#[41]⟩), (["in", "b.js"], .file ⟨#[255]⟩),
      (["in", "c.js"], .file ⟨#[]⟩)]

def mixedJobs : List Job :=
  [⟨["a.js"], (convertBytes strictGrammar ⟨#[41]⟩).toOption.get (by decide +kernel)⟩,
   ⟨["b.js"], (convertBytes strictGrammar ⟨#[255]⟩).toOption.get (by decide +kernel)⟩,
   ⟨["c.js"], (convertBytes strictGrammar ⟨#[]⟩).toOption.get (by decide +kernel)⟩]

theorem readParse_blankGrammar {text : String} {tree : Node}
    (read : readParse text (blankGrammar text) = .ok tree) : ∃ label, tree = .node label [] := by
  have hydrated := hydrate_of_readParse read
  have childless : (blankGrammar text).children.isEmpty = true := rfl
  simp only [hydrate, childless, if_true] at hydrated
  cases whole : Utf8.decode text.toUTF8 with
  | error fault =>
      simp only [whole, bind, Except.bind] at hydrated
      cases hydrated
  | ok trail =>
      simp only [whole, bind, Except.bind, pure, Except.pure, Except.ok.injEq] at hydrated
      exact ⟨_, hydrated.symm⟩

theorem sound_strictGrammar : strictGrammar.Sound := by
  have blank (text : String) (undamaged : (strictGrammar text).label.hasError = false) :
      strictGrammar text = blankGrammar text := by
    unfold strictGrammar at undamaged ⊢
    split at undamaged
    next => exact Bool.noConfusion undamaged
    next plain => rw [if_neg plain]
  refine ⟨fun text undamaged => ?_, fun text undamaged => ?_, fun text undamaged tree read => ?_⟩
  next =>
    rw [blank text undamaged]
    exact ⟨by simp [parsedLeaves, blankGrammar, Tree.endsAll], by
      simp [parsedLeaves, blankGrammar, Tree.endsAll]⟩
  next =>
    rw [blank text undamaged]
    simp [parsedLeaves, blankGrammar, Tree.endsAll]
  next =>
    rw [blank text undamaged] at read
    obtain ⟨label, rfl⟩ := readParse_blankGrammar read
    have childless (part : Node) (member : part ∈ Tree.subtrees (.node label [])) :
        part.children = [] := by
      obtain rfl : part = .node label [] := by
        simpa [Tree.subtrees, Tree.subtreesAll] using member
      rfl
    exact ⟨fun part member _ body child => by simp [childless part member] at child,
      fun part member _ source child => by simp [childless part member] at child⟩

theorem listing_mixed : twinsScope.listing mixed = (mixedJobs.map (·.names), none) := by
  have names : mixed.list (twinsScope.root.below []) = ["a.js", "b.js", "c.js"] := by
    have unordered : mixed.entries.filterMap (nameBelow? ["in"]) = ["a.js", "b.js", "c.js"] := by
      decide
    have leads : mixed.locate (twinsScope.root.below []) = .ok ["in"] := rfl
    simp only [list, leads, unordered]
    simp [List.mergeSort]
  have directory : mixed.isDirectory twinsScope.input = .ok true := rfl
  have first : twinsScope.visit mixed (twinsScope.root.below ["a.js"]) = .ok .take :=
    Scope.visit_take (by decide) rfl (accepts_default rfl (by decide +kernel))
  have second : twinsScope.visit mixed (twinsScope.root.below ["b.js"]) = .ok .take :=
    Scope.visit_take (by decide) rfl (accepts_default rfl (by decide +kernel))
  have third : twinsScope.visit mixed (twinsScope.root.below ["c.js"]) = .ok .take :=
    Scope.visit_take (by decide) rfl (accepts_default rfl (by decide +kernel))
  have budget : Scope.stepBudget mixed = 5 := rfl
  simp [Scope.listing, directory, Scope.childrenOf, names, budget, Scope.searchFrom, first, second,
    third, mixedJobs]

theorem converts_mixed : ∀ job ∈ mixedJobs, job.Converts strictGrammar twinsScope mixed := by
  simp only [mixedJobs, List.forall_mem_cons]
  exact ⟨⟨⟨#[41]⟩, rfl, ok_of_toOption (by rw [Option.some_get])⟩,
    ⟨⟨#[255]⟩, rfl, ok_of_toOption (by rw [Option.some_get])⟩,
    ⟨⟨#[]⟩, rfl, ok_of_toOption (by rw [Option.some_get])⟩, by simp⟩

end Batch

end ScriptTyping
