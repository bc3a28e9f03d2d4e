import Mathlib.Data.List.TakeWhile
import ScriptTyping.Proofs.Batch.Jobs
import ScriptTyping.Proofs.Discovery.Reach
import ScriptTyping.Proofs.Settings.Load

set_option autoImplicit false

namespace ScriptTyping

namespace Path

theorem splitName_extension {name : List Char} (some : (splitName name).2 ≠ []) :
    ∃ ending, (splitName name).2 = '.' :: ending ∧ name = (splitName name).1 ++ '.' :: ending ∧
      (splitName name).1 ≠ [] ∧ '.' ∉ ending := by
  simp only [splitName] at some ⊢
  generalize taken : name.reverse.takeWhile (· != '.') = after at some ⊢
  have parts : after ++ name.reverse.dropWhile (· != '.') = name.reverse :=
    taken ▸ List.takeWhile_append_dropWhile
  split at some
  next => exact absurd rfl some
  next dotted =>
    rw [if_neg dotted]
    simp only [Bool.or_eq_true, not_or, decide_eq_true_eq, List.isEmpty_iff] at dotted
    have plain : '.' ∉ after := by
      intro inside
      rw [← taken] at inside
      simpa using List.mem_takeWhile_imp inside
    refine ⟨after.reverse, rfl, ?_, dotted.2, by simpa using plain⟩
    cases left : name.reverse.dropWhile (· != '.') with
    | nil =>
        rw [left, List.append_nil] at parts
        exact absurd (by simpa using congrArg List.length parts) dotted.1.2
    | cons dot before =>
        have last : dot = '.' := by
          have head := List.head?_dropWhile_not (· != '.') name.reverse
          simpa [left] using head
        subst last
        rw [left] at parts
        have whole : name = before.reverse ++ '.' :: after.reverse := by
          simpa using (congrArg List.reverse parts).symm
        have short : name.length - after.length - 1 = before.reverse.length := by
          simp [whole]
          omega
        rw [short]
        simp [whole]

theorem name_of_extension {path : Path} (some : path.extension ≠ "") :
    ∃ ending, path.name = stem path.name ++ "." ++ ending ∧ stem path.name ≠ "" ∧
      '.' ∉ ending.toList := by
  have opened : (splitName path.name.toList).2 ≠ [] := fun none => some (by rw [extension, none])
  obtain ⟨ending, -, whole, nonempty, plain⟩ := splitName_extension opened
  refine ⟨String.ofList ending, ?_, ?_, by simpa using plain⟩
  · apply String.toList_injective
    simpa [stem] using whole
  · intro empty
    exact nonempty (by simpa [stem] using congrArg String.toList empty)

end Path

namespace FileSystem

variable {files : FileSystem}

theorem sorted_list (path : Path) : (files.list path).Pairwise (· ≤ ·) := by
  unfold list
  split
  next => exact .nil
  next =>
    have sorted := @List.pairwise_mergeSort String (fun a b => decide (a ≤ b))
      (by simpa using fun a b c => @String.le_trans a b c) (by simpa using String.le_total)
    simpa using sorted _

end FileSystem

namespace Scope

open FileSystem

variable {scope : Scope} {files : FileSystem} {home : Location} {base names : List String}
  {pending : List (List String)} {steps : Nat}

def Before (one other : List String) : Prop :=
  ∃ (common rest more : List String) (first second : String),
    one = common ++ first :: rest ∧ other = common ++ second :: more ∧ first < second

namespace Before

variable {one other : List String}

theorem lt (before : Before one other) : one < other := by
  obtain ⟨common, rest, more, first, second, rfl, rfl, smaller⟩ := before
  induction common with
  | nil => exact .rel smaller
  | cons _ _ ih => exact .cons ih

theorem below (before : Before one other) {far beyond : List String} (within : one <+: far)
    (inside : other <+: beyond) : Before far beyond := by
  obtain ⟨common, rest, more, first, second, rfl, rfl, smaller⟩ := before
  obtain ⟨left, rfl⟩ := within
  obtain ⟨right, rfl⟩ := inside
  exact ⟨common, rest ++ left, more ++ right, first, second, by simp, by simp, smaller⟩

end Before

theorem before_children (once : files.locations.Nodup) (names : List String) :
    (scope.childrenOf files names).Pairwise Before := by
  have smaller : (files.list (scope.root.below names)).Pairwise (· < ·) := by
    refine (sorted_list _).imp₂ (fun first second least different => ?_) (nodup_list once _)
    by_contra more
    exact different (String.le_antisymm least (String.not_lt.mp more))
  refine List.pairwise_map.mpr (smaller.imp fun less => ?_)
  exact ⟨names, [], [], _, _, rfl, rfl, less⟩

theorem searchFrom_before (once : files.locations.Nodup) (ordered : pending.Pairwise Before) :
    (scope.searchFrom files steps pending).1.Pairwise Before := by
  induction steps generalizing pending with
  | zero => simp [searchFrom]
  | succ steps ih =>
      cases pending with
      | nil => simp [searchFrom]
      | cons names rest =>
          obtain ⟨first, later⟩ := List.pairwise_cons.mp ordered
          simp only [searchFrom]
          split
          next => simp
          next => exact ih later
          next =>
            refine ih (List.pairwise_append.mpr ⟨before_children once names, later, ?_⟩)
            intro child member other inside
            obtain ⟨name, -, rfl⟩ := List.mem_map.mp member
            exact (first other inside).below (List.prefix_append ..) List.prefix_rfl
          next =>
            refine List.pairwise_cons.mpr ⟨fun found member => ?_, ih later⟩
            obtain ⟨above, inside, within⟩ := searchFrom_below steps found member
            exact (first above inside).below List.prefix_rfl within

def atInput (scope : Scope) : Scope := { scope with root := scope.input }

section Base

variable (input : scope.input = scope.root.below base)

include input in
theorem visit_atInput (kept : base.any scope.settings.skips = false) (names : List String) :
    scope.visit files (scope.input.below names) =
      scope.atInput.visit files (scope.input.below names) := by
  have inner : scope.atInput.isSkipped? (scope.input.below names) =
      some (names.any scope.settings.skips) := by
    simp only [isSkipped?, atInput, Path.relativeTo?_below, Option.map_some]
  have outer : scope.isSkipped? (scope.input.below names) =
      some (names.any scope.settings.skips) := by
    simp only [isSkipped?, input, Path.below_below, Path.relativeTo?_below, Option.map_some,
      List.any_append, kept, Bool.false_or]
  simp only [visit, inner, outer]
  rfl

include input in
theorem sourcesFrom_atInput (kept : base.any scope.settings.skips = false) (steps : Nat)
    (pending : List (List String)) (found : Array Path) :
    scope.sourcesFrom files steps (pending.map scope.input.below) found =
      scope.atInput.sourcesFrom files steps (pending.map scope.input.below) found := by
  induction steps generalizing pending found with
  | zero => rfl
  | succ steps ih =>
      cases pending with
      | nil => rfl
      | cons names rest =>
          simp only [List.map_cons, sourcesFrom, visit_atInput input kept]
          cases visited : scope.atInput.visit files (scope.input.below names) with
          | error fault => rfl
          | ok visit =>
              cases visit with
              | pass => exact ih rest found
              | descend entries =>
                  obtain rfl : entries =
                      (scope.atInput.childrenOf files names).map scope.atInput.root.below :=
                    visit_descend visited
                  simp only [atInput, ← List.map_append]
                  exact ih _ found
              | take => exact ih rest _

include input in
theorem sourcesFrom_left (left : base.any scope.settings.skips = true) (steps : Nat)
    (pending : List (List String)) (found : Array Path) :
    scope.sourcesFrom files steps (pending.map scope.input.below) found = .ok found := by
  induction steps generalizing pending with
  | zero => rfl
  | succ steps ih =>
      cases pending with
      | nil => rfl
      | cons names rest =>
          have passed : scope.visit files (scope.input.below names) = .ok .pass := by
            rw [input, Path.below_below, visit_below, if_pos]
            simp [left]
          simp only [List.map_cons, sourcesFrom, passed, ih]

def search (scope : Scope) (files : FileSystem) : List (List String) × Option SearchFault :=
  scope.atInput.searchFrom files (stepBudget files) (scope.atInput.childrenOf files [])

theorem startEntries_atInput :
    scope.startEntries files = (scope.atInput.childrenOf files []).map scope.input.below := by
  have entries := entriesOf_below scope.atInput files []
  rwa [Path.below_nil] at entries

include input in
theorem sources_left (left : base.any scope.settings.skips = true)
    (directory : files.isDirectory scope.input = .ok true) : scope.sources files = .ok [] := by
  simp [sources, directory, startEntries_atInput, sourcesFrom_left input left, Except.map]

include input in
theorem sources_atInput (kept : base.any scope.settings.skips = false)
    (directory : files.isDirectory scope.input = .ok true) :
    scope.sources files =
      match scope.search files with
      | (found, none) => .ok (found.map scope.input.below)
      | (_, some fault) => .error fault := by
  have searched := sourcesFrom_eq scope.atInput files (stepBudget files)
    (scope.atInput.childrenOf files []) #[]
  simp only [sources, directory, startEntries_atInput, sourcesFrom_atInput input kept]
  rw [show scope.input = scope.atInput.root from rfl, searched]
  unfold search
  cases scope.atInput.searchFrom files (stepBudget files) (scope.atInput.childrenOf files []) with
  | mk found fault => cases fault <;> simp [Except.map]

theorem met_atInput (kept : base.any scope.settings.skips = false) {names : List String} :
    scope.Met files home base names ↔ scope.atInput.Met files home [] names := by
  have all := (any_skips_iff scope.settings base).mp kept
  constructor
  · rintro ⟨listed, free⟩
    exact ⟨listed, fun segment member => free segment (List.mem_append_right _ member)⟩
  · rintro ⟨listed, free⟩
    refine ⟨listed, fun segment member => ?_⟩
    rcases List.mem_append.mp member with inside | below
    · exact all segment inside
    · exact free segment below

theorem wanted_atInput (kept : base.any scope.settings.skips = false) :
    scope.Wanted files home base names ↔ scope.atInput.Wanted files home [] names :=
  and_congr (met_atInput kept) .rfl

theorem not_met_of_left (left : base.any scope.settings.skips = true) :
    ¬ scope.Met files home base names := by
  obtain ⟨segment, member, skipped⟩ := List.any_eq_true.mp left
  exact fun met => met.2 segment (List.mem_append_left _ member) ((skips_iff ..).mp skipped)

end Base

section Directory

variable (rooted : files.Rooted) (nameable : files.Nameable)
  (input : scope.input = scope.root.below base) (leads : files.locate scope.input = .ok home)
  (directory : files.isDirectoryAt home = true)

include rooted leads in
theorem underway_atInput :
    Underway files home (stepBudget files) (scope.atInput.childrenOf files []) where
  listed _ member := listed_of_child rooted leads (by simp) member
  enough := Nat.le_succ_of_le (load_start scope.atInput rooted home)

include rooted leads in
theorem awaited_start (listed : Listed files home names) :
    Awaited (scope.atInput.childrenOf files []) names := by
  refine below_children rooted ?_ listed List.nil_prefix listed.some
  rw [Path.below_nil, List.append_nil]
  exact leads

include rooted in
theorem search_ordered : (scope.search files).1.Pairwise (· < ·) :=
  (searchFrom_before rooted.once (before_children rooted.once [])).imp Before.lt

include rooted nameable leads in
theorem search_sound (found : names ∈ (scope.search files).1) :
    scope.atInput.Wanted files home [] names :=
  wanted_of_found rooted nameable rfl leads (underway_atInput rooted leads).listed names found

include rooted nameable leads in
theorem search_complete :
    scope.atInput.Complete files home (fun _ => True) (scope.search files) := by
  have complete := searchFrom_complete rooted nameable (rfl : scope.atInput.input = scope.input)
    leads (underway_atInput rooted leads)
  change scope.atInput.Complete files home _ (scope.search files) at complete
  generalize scope.search files = result at complete ⊢
  obtain ⟨found, _ | fault⟩ := result
  · exact fun far met _ => complete far met (awaited_start rooted leads met.1)
  · exact complete

include rooted nameable input leads directory in
theorem sources_of_fits
    (fits : ∀ names, scope.Met files home base names → (scope.input.below names).Fits) :
    ∃ found : List (List String), scope.sources files = .ok (found.map scope.input.below) ∧
      found.Pairwise (· < ·) ∧ ∀ names, names ∈ found ↔ scope.Wanted files home base names := by
  have isDirectory := isDirectory_iff.mpr (look_directory.mpr ⟨home, leads, directory⟩)
  cases left : base.any scope.settings.skips with
  | true =>
      refine ⟨[], sources_left input left isDirectory, .nil, fun names => ?_⟩
      exact ⟨fun found => absurd found List.not_mem_nil,
        fun wanted => absurd wanted.1 (not_met_of_left left)⟩
  | false =>
      have complete : scope.atInput.Complete files home _ (scope.search files) :=
        search_complete rooted nameable leads
      have ordered : (scope.search files).1.Pairwise (· < ·) := search_ordered rooted
      have sound : ∀ names ∈ (scope.search files).1, scope.atInput.Wanted files home [] names :=
        fun names => search_sound rooted nameable leads
      rw [sources_atInput input left isDirectory]
      generalize scope.search files = result at complete ordered sound ⊢
      obtain ⟨found, _ | fault⟩ := result
      · refine ⟨found, rfl, ordered, fun names => ?_⟩
        rw [wanted_atInput left]
        exact ⟨sound names, fun wanted => (complete names wanted.1 trivial).2 wanted⟩
      · obtain ⟨-, far, met, long⟩ := complete
        exact absurd (fits far ((met_atInput left).mpr met)) long

include rooted nameable input leads directory in
theorem sources_of_long (met : scope.Met files home base names)
    (long : ¬ (scope.input.below names).Fits) :
    scope.sources files = .error (.files .tooLong) := by
  have isDirectory := isDirectory_iff.mpr (look_directory.mpr ⟨home, leads, directory⟩)
  cases left : base.any scope.settings.skips with
  | true => exact absurd met (not_met_of_left left)
  | false =>
      have complete : scope.atInput.Complete files home _ (scope.search files) :=
        search_complete rooted nameable leads
      rw [sources_atInput input left isDirectory]
      generalize scope.search files = result at complete ⊢
      obtain ⟨found, _ | fault⟩ := result
      · exact absurd (complete names ((met_atInput left).mp met) trivial).1 long
      · obtain ⟨rfl, -⟩ := complete
        rfl

theorem extension_of_accepts {fields : Entries} {path : Path}
    (valid : Settings.ofFields fields = .ok scope.settings)
    (accepted : scope.settings.accepts path = true) : path.extension ≠ "" := by
  intro none
  rw [Settings.accepts, none, List.contains_iff_mem] at accepted
  exact Settings.extension_ne_empty valid accepted

include rooted nameable input leads directory in
/-- The search of a directory is exact and ordered, unless it meets a path that is too long. -/
theorem sources_exact {fields : Entries} (valid : Settings.ofFields fields = .ok scope.settings) :
    ((∀ names, scope.Met files home base names → (scope.input.below names).Fits) →
      ∃ found : List (List String), scope.sources files = .ok (found.map scope.input.below) ∧
        found.Pairwise (· < ·) ∧
        (∀ names, names ∈ found ↔ scope.Wanted files home base names) ∧
        ∀ names ∈ found, ∃ above stem ending, names = above ++ [stem ++ "." ++ ending] ∧
          stem ≠ "" ∧ '.' ∉ ending.toList ∧ ∀ extension ∈ [".ts", ".tsx"],
            scope.outputPath? (scope.input.below names) extension =
              some (scope.root.below
                (scope.settings.outRoot :: base ++ above ++ [stem ++ extension]))) ∧
      ∀ names, scope.Met files home base names → ¬ (scope.input.below names).Fits →
        scope.sources files = .error (.files .tooLong) := by
  refine ⟨fun fits => ?_, fun names => sources_of_long rooted nameable input leads directory⟩
  obtain ⟨found, sources, ordered, exact_⟩ :=
    sources_of_fits rooted nameable input leads directory fits
  refine ⟨found, sources, ordered, exact_, fun names member => ?_⟩
  obtain ⟨⟨listed, -⟩, -, accepted⟩ := (exact_ names).mp member
  obtain ⟨above, last, rfl⟩ := (List.eq_nil_or_concat' names).resolve_left listed.some
  obtain ⟨ending, split, some, plain⟩ := Path.name_of_extension (extension_of_accepts valid accepted)
  rw [Path.name_below _ listed.some, List.getLastD_concat] at split some
  refine ⟨above, Path.stem last, ending, by rw [← split], some, plain, fun extension given => ?_⟩
  have fits : Path.isExtension extension = true := by
    rcases (by simpa using given : extension = ".ts" ∨ extension = ".tsx") with rfl | rfl <;> decide
  rw [input, Path.below_below, ← List.append_assoc, Batch.outputPath?_extended _ (by simp) fits,
    List.dropLast_concat, List.getLastD_concat]
  simp

end Directory

def shelf : FileSystem where
  entries :=
    [(["d"], .directory), (["d", "a"], .directory), (["d", "a", "z.js"], .file ⟨#[]⟩),
      (["d", "a-b"], .directory), (["d", "a-b", "y.js"], .file ⟨#[]⟩), (["d", "a.js"], .file ⟨#[]⟩),
      (["d", "public"], .directory), (["d", "public", "p.js"], .file ⟨#[]⟩)]

def shelfScope : Scope :=
  ⟨⟨"", ["d"]⟩, ⟨"", []⟩,
    ⟨Settings.defaultOutRoot, Settings.defaultSkipDirs, Settings.defaultExtensions, false⟩⟩

theorem shelf_met_fits (names : List String) (met : shelfScope.Met shelf ["d"] ["d"] names) :
    (shelfScope.input.below names).Fits := by
  have present := met.1.present
  simp only [shelf, locations, List.map_cons, List.map_nil, List.mem_cons, List.not_mem_nil,
    List.singleton_append, List.cons.injEq, true_and, or_false] at present
  rcases present with rfl | rfl | rfl | rfl | rfl | rfl | rfl | rfl <;> decide +kernel

theorem shelf_sources :
    shelf.Rooted ∧ shelf.Nameable ∧ Settings.ofFields [] = .ok shelfScope.settings ∧
      shelf.locate shelfScope.input = .ok ["d"] ∧ shelf.isDirectoryAt ["d"] = true ∧
      ∃ found : List (List String), shelfScope.sources shelf =
          .ok (found.map shelfScope.input.below) ∧ found.Pairwise (· < ·) ∧
        ["a", "z.js"] ∈ found ∧ ["public", "p.js"] ∉ found := by
  have rooted : shelf.Rooted := .of_single (fun _ => rfl) (by decide) (by decide) rfl
  have nameable : shelf.Nameable := by unfold Nameable; decide
  have leads : shelf.locate shelfScope.input = .ok ["d"] := by decide +kernel
  obtain ⟨found, sources, ordered, exact_, -⟩ :=
    (sources_exact rooted nameable (rfl : shelfScope.input = shelfScope.root.below ["d"]) leads rfl
      (rfl : Settings.ofFields [] = .ok shelfScope.settings)).1 shelf_met_fits
  refine ⟨rooted, nameable, rfl, leads, rfl, found, sources, ordered, ?_, ?_⟩
  · rw [exact_]
    exact ⟨⟨⟨by decide, by decide, by decide⟩, by decide⟩, ⟨_, rfl⟩, by decide +kernel⟩
  · rw [exact_]
    rintro ⟨⟨-, kept⟩, -⟩
    exact kept "public" (by decide) (by decide)

def detour : Nat → List String
  | 0 => []
  | times + 1 => "d" :: ".." :: detour times

def nest : FileSystem where
  entries := [(["d"], .directory), (["d", "file.js"], .file ⟨#[]⟩)]

def windingScope : Scope :=
  ⟨⟨"", detour 818 ++ ["d"]⟩, ⟨"", detour 818 ++ ["d"]⟩, shelfScope.settings⟩

theorem size_detour (times : Nat) {parts : List String} (some : parts ≠ []) :
    (Path.mk "" (detour times ++ parts)).toText.utf8ByteSize =
      5 * times + (String.intercalate "/" parts).utf8ByteSize := by
  have whole : (detour times ++ parts).isEmpty = false := by simp [some]
  simp only [Path.toText, whole, Bool.and_false, Bool.false_eq_true, if_false, String.empty_append]
  induction times with
  | zero => simp [detour]
  | succ times ih =>
      have later : detour times ++ parts ≠ [] := by simp [some]
      have split : String.intercalate "/" (["d", ".."] ++ (detour times ++ parts)) =
          String.intercalate "/" ["d", ".."] ++ "/" ++ String.intercalate "/" (detour times ++ parts) :=
        String.intercalate_append_of_ne_nil (by simp) later
      have start : (String.intercalate "/" ["d", ".."]).utf8ByteSize = 4 := by decide +kernel
      have slash : "/".utf8ByteSize = 1 := rfl
      simp only [detour, List.cons_append, List.nil_append] at split ⊢
      rw [split, String.utf8ByteSize_append, String.utf8ByteSize_append,
        ih (List.isEmpty_eq_false_iff.mpr later), start, slash]
      omega

theorem follow_detour (times : Nat) (parts : List String) :
    nest.follow [] (detour times ++ parts) = nest.follow [] parts := by
  induction times with
  | zero => rfl
  | succ times ih => exact ih

theorem hasNull_detour (times : Nat) (parts : List String) :
    (Path.mk "" (detour times ++ parts)).hasNull = (Path.mk "" parts).hasNull := by
  induction times with
  | zero => rfl
  | succ times ih => exact ih

theorem locate_winding : nest.locate windingScope.input = .ok ["d"] := by
  refine locate_ok.mpr ⟨(hasNull_detour 818 ["d"]).trans (by decide), ?_, ?_⟩
  · have last : (String.intercalate "/" ["d"]).utf8ByteSize = 1 := by decide +kernel
    rw [windingScope, size_detour 818 (by simp), last]
    decide
  · exact (follow_detour 818 ["d"]).trans rfl

-- The directory can be listed, but the path to the file in it is too long.
theorem winding_sources_fail :
    nest.Rooted ∧ nest.Nameable ∧ Settings.ofFields [] = .ok windingScope.settings ∧
      nest.isDirectory windingScope.input = .ok true ∧
      windingScope.Wanted nest ["d"] [] ["file.js"] ∧
      windingScope.sources nest = .error (.files .tooLong) := by
  have rooted : nest.Rooted := .of_single (fun _ => rfl) (by decide) (by decide) rfl
  have nameable : nest.Nameable := by unfold Nameable; decide
  have met : windingScope.Met nest ["d"] [] ["file.js"] :=
    ⟨⟨by decide, by decide, by decide⟩, by decide⟩
  have long : ¬ (windingScope.input.below ["file.js"]).Fits := by
    have whole : windingScope.input.below ["file.js"] = ⟨"", detour 818 ++ ["d", "file.js"]⟩ := by
      simp [windingScope, Path.below, Path.append]
    have last : (String.intercalate "/" ["d", "file.js"]).utf8ByteSize = 9 := by decide +kernel
    rw [whole, Path.Fits, size_detour 818 (by simp), last]
    decide
  refine ⟨rooted, nameable, rfl, ?_, ⟨met, ⟨_, rfl⟩, ?_⟩, ?_⟩
  · exact isDirectory_iff.mpr (look_directory.mpr ⟨["d"], locate_winding, rfl⟩)
  · rw [Settings.accepts, Path.extension, Path.name_below _ (by simp)]
    decide +kernel
  · exact sources_of_long rooted nameable (Path.below_nil _).symm locate_winding rfl met long

end Scope

end ScriptTyping
