import ScriptTyping.Proofs.FileSystem.Changes

set_option autoImplicit false

namespace ScriptTyping.FileSystem

-- A path to a directory, and a name in that directory: a place for output.
structure Site (files : FileSystem) (root : Path) (home : Location) (name : String) : Prop where
  rooted : files.Rooted
  leads : files.locate root = .ok home
  directory : files.isDirectoryAt home = true
  named : IsName name

-- Locations with no part in a place: none of them is a directory, is on the way to the place or
-- below it.
structure Foreign (files : FileSystem) (home : Location) (name : String) (cut : List Location) :
    Prop where
  file : ∀ place ∈ cut, Taken files place
  apart : ∀ names, covers cut (home ++ name :: names) = false

variable {files after next : FileSystem} {root path : Path} {home location : Location}
  {name : String} {names : List String} {writes : List (Location × ByteArray)}
  {cut : List Location}

theorem ahead_of_named (named : ∀ name ∈ names, IsName name) : Ahead names :=
  fun name member => (named name member).ahead

theorem ensureDirectory_notFound (missing : files.ensureDirectory path = .error .notFound) :
    files.locate path = .error .notFound := by
  unfold ensureDirectory at missing
  have failed : files.makeDirectory path = .error .notFound := by
    split at missing
    next => simp at missing
    next failed => exact failed
    next fault apart failed =>
      split at missing
      next => simp at missing
      next => exact absurd (Except.error.inj missing) apart
  unfold makeDirectory at failed
  cases leads : files.locate path with
  | error fault => simpa [leads, bind, Except.bind] using failed
  | ok location =>
      simp only [leads, bind, Except.bind] at failed
      split at failed
      next => simp at failed
      next => split at failed <;> simp [pure, Except.pure] at failed

namespace Site

theorem named_cons (site : Site files root home name) (named : ∀ part ∈ names, IsName part) :
    ∀ part ∈ name :: names, IsName part := by
  intro part member
  rcases List.mem_cons.mp member with rfl | member
  next => exact site.named
  next => exact named part member

theorem reaches (site : Site files root home name)
    (reaches : Reaches (home ++ [name]) files writes after) : Site after root home name where
  rooted := reaches.rooted site.rooted (by simpa using site.named)
  leads := locate_keeps reaches.keeps site.leads
  directory := reaches.keeps.directory home site.directory
  named := site.named

theorem stored (site : Site files root home name)
    (reaches : Reaches (home ++ [name]) files writes after) : Stored files writes after :=
  reaches.stored site.rooted (by simpa using site.named)

theorem location_eq (site : Site files root home name) (named : ∀ part ∈ names, IsName part)
    (found : files.locate (root.below names) = .ok location) : location = home ++ names :=
  location_below site.leads (ahead_of_named named) found

theorem granted_below (site : Site files root home name)
    (granted : files.volume.Rewritable (home ++ [name])) (named : ∀ part ∈ names, IsName part)
    (location : Location) (leads : files.locate (root.below (name :: names)) = .ok location) :
    files.volume.refuses .write location = false := by
  obtain rfl := site.location_eq (site.named_cons named) leads
  simpa using granted names

theorem ensureDirectory_found (site : Site files root home name) :
    files.ensureDirectory (root.below [name]) ≠ .error .notFound := by
  intro missing
  have lost := ensureDirectory_notFound missing
  rw [locate_below site.leads] at lost
  split at lost
  next => simp at lost
  next =>
    split at lost
    next => simp at lost
    next =>
      simp only [follow, site.directory, Bool.not_true, Bool.false_eq_true, if_false, beq_iff_eq,
        site.named.ahead] at lost
      split at lost <;> simp at lost

theorem ensureDirectory_reaches (site : Site files root home name)
    (named : ∀ part ∈ names, IsName part)
    (made : files.ensureDirectory (root.below (name :: names)) = .ok next) :
    Reaches (home ++ [name]) files [] next ∧
      next.look (root.below (name :: names)) = .ok (some .directory) := by
  rcases ensureDirectory_ok made with made | ⟨rfl, directory⟩
  next =>
    obtain ⟨there, leads, free, -, -, rfl⟩ := makeDirectory_ok.mp made
    obtain rfl := site.location_eq (site.named_cons named) leads
    have inPlace : files.locate (root.below (name :: names)) = .ok (home ++ [name] ++ names) := by
      simpa using leads
    refine ⟨Reaches.start.directory inPlace named made, look_directory.mpr
      ⟨home ++ name :: names, ?_, ?_⟩⟩
    next => exact locate_keeps (keeps_set free _) leads
    next => exact isDirectoryAt_of_at? (at?_set_self files _ _)
  next => exact ⟨.start, directory⟩

theorem makeDirectoriesUpTo_reaches (site : Site files root home name) (parts : Nat)
    (named : ∀ part ∈ names, IsName part)
    (made : files.makeDirectoriesUpTo parts (root.below (name :: names)) = .ok next) :
    Reaches (home ++ [name]) files [] next ∧
      next.look (root.below (name :: names)) = .ok (some .directory) := by
  induction parts generalizing names next with
  | zero => exact site.ensureDirectory_reaches named made
  | succ parts ih =>
      simp only [makeDirectoriesUpTo] at made
      split at made
      next missing =>
        cases whole : names using List.reverseRecOn with
        | nil => exact absurd (whole ▸ missing) site.ensureDirectory_found
        | append_singleton above last _ =>
            subst whole
            rw [Path.parent_below _ (by simp), ← List.cons_append, List.dropLast_concat] at made
            simp only [bind, Except.bind] at made
            split at made
            next => simp at made
            next prepared above' =>
              obtain ⟨first, -⟩ := ih (fun part member => named part (by simp [member])) above'
              obtain ⟨second, directory⟩ := (site.reaches first).ensureDirectory_reaches named made
              exact ⟨first.trans second, directory⟩
      next => exact site.ensureDirectory_reaches named made

theorem makeDirectories_reaches (site : Site files root home name)
    (named : ∀ part ∈ names, IsName part)
    (made : files.makeDirectories (root.below (name :: names)) = .ok next) :
    Reaches (home ++ [name]) files [] next ∧
      next.look (root.below (name :: names)) = .ok (some .directory) :=
  site.makeDirectoriesUpTo_reaches _ named made

theorem write_reaches (site : Site files root home name) (named : ∀ part ∈ names, IsName part)
    (some : names ≠ []) {bytes : ByteArray}
    (written : files.write (root.below (name :: names)) bytes = .ok next) :
    Reaches (home ++ [name]) files [(home ++ name :: names, bytes)] next := by
  obtain ⟨there, leads, -⟩ := write_ok.mp written
  obtain rfl := site.location_eq (site.named_cons named) leads
  have inPlace : files.locate (root.below (name :: names)) = .ok (home ++ [name] ++ names) := by
    simpa using leads
  simpa using Reaches.start.file inPlace named some written

end Site

theorem Foreign.covered (foreign : Foreign files home name cut) (rooted : files.Rooted)
    {entry : FileEntry} (present : files.at? location = some entry)
    (hidden : covers cut location = true) : location ∈ cut := by
  obtain ⟨place, member, names, rfl⟩ := covers_iff.mp hidden
  by_cases none : names = []
  next => simpa [none] using member
  next =>
    have directory := rooted.directory_of_below none (mem_locations.mpr ⟨entry, mem_of_at? present⟩)
    rw [(foreign.file place member).1] at directory
    exact Bool.noConfusion directory

theorem Foreign.keeps (foreign : Foreign files home name cut) (rooted : files.Rooted) :
    Keeps files (files.without cut) := by
  refine ⟨rfl, fun location directory => ?_⟩
  have seen : covers cut location = false := by
    by_contra hidden
    obtain ⟨place, member, within⟩ := covers_iff.mp (by simpa using hidden)
    have held := rooted.directory_prefix directory within
    rw [(foreign.file place member).1] at held
    exact Bool.noConfusion held
  rw [isDirectoryAt_without seen]
  exact directory

theorem Foreign.alike (foreign : Foreign files home name cut) (site : Site files root home name) :
    Alike cut root home files (files.without cut) where
  same := by
    rw [outline_without]
    simp [without, List.filter_filter]
  leads := site.leads
  leadsSecond := locate_keeps (foreign.keeps site.rooted) site.leads

theorem Foreign.reaches (foreign : Foreign files home name cut)
    (reaches : Reaches (home ++ [name]) files writes after) : Foreign after home name cut where
  file := by
    intro place member
    exact reaches.taken (foreign.file place member)
  apart := foreign.apart

namespace Site

theorem without (site : Site files root home name) (foreign : Foreign files home name cut)
    (plain : files.volume.Plain) : Site (files.without cut) root home name where
  rooted := by
    refine .of_single plain.single (site.rooted.once.sublist (List.filter_sublist.map _))
      (fun location member => ?_) ((foreign.keeps site.rooted).directory _ site.rooted.home)
    obtain ⟨entry, kept⟩ := mem_locations.mp member
    obtain ⟨old, seen⟩ := List.mem_filter.mp kept
    obtain ⟨some, isName, above⟩ := site.rooted.standing location (mem_locations.mpr ⟨entry, old⟩)
    refine ⟨some, isName, ?_⟩
    rw [isDirectoryAt_without]
    next => exact above
    next =>
      refine uncovered_of_append [location.getLast some] ?_
      rw [List.dropLast_concat_getLast]
      simpa using seen
  leads := (foreign.alike site).leadsSecond
  directory := (foreign.keeps site.rooted).directory home site.directory
  named := site.named

theorem locate_without (site : Site files root home name) (foreign : Foreign files home name cut)
    (named : ∀ part ∈ names, IsName part) :
    (files.without cut).locate (root.below (name :: names)) =
      files.locate (root.below (name :: names)) :=
  (foreign.alike site).locate (ahead_of_named (site.named_cons named)) (foreign.apart names)

theorem look_without (site : Site files root home name) (foreign : Foreign files home name cut)
    (named : ∀ part ∈ names, IsName part) :
    (files.without cut).look (root.below (name :: names)) = files.look (root.below (name :: names)) := by
  refine look_congr (site.locate_without foreign named) fun location leads => ?_
  obtain rfl := site.location_eq (site.named_cons named) leads
  exact at?_without (foreign.apart names)

theorem makeDirectory_without (site : Site files root home name)
    (foreign : Foreign files home name cut) (named : ∀ part ∈ names, IsName part) :
    (files.without cut).makeDirectory (root.below (name :: names)) =
      (files.makeDirectory (root.below (name :: names))).map (·.without cut) := by
  unfold makeDirectory
  rw [site.locate_without foreign named]
  cases leads : files.locate (root.below (name :: names)) with
  | error fault => rfl
  | ok there =>
      obtain rfl := site.location_eq (site.named_cons named) leads
      have seen := foreign.apart names
      have volume : (files.without cut).volume = files.volume := rfl
      simp only [bind, Except.bind, isDirectoryAt_without seen, at?_without seen, volume]
      split
      next => rfl
      next =>
        split
        next => rfl
        next => simp [pure, Except.pure, Except.map, without_set seen]

theorem ensureDirectory_without (site : Site files root home name)
    (foreign : Foreign files home name cut) (named : ∀ part ∈ names, IsName part) :
    (files.without cut).ensureDirectory (root.below (name :: names)) =
      (files.ensureDirectory (root.below (name :: names))).map (·.without cut) := by
  unfold ensureDirectory
  rw [site.makeDirectory_without foreign named, site.look_without foreign named]
  cases files.makeDirectory (root.below (name :: names)) with
  | ok made => rfl
  | error fault =>
      cases fault <;> first
        | rfl
        | (simp only [Except.map]; split <;> rfl)

theorem makeDirectoriesUpTo_without (site : Site files root home name)
    (foreign : Foreign files home name cut) (parts : Nat) (named : ∀ part ∈ names, IsName part) :
    (files.without cut).makeDirectoriesUpTo parts (root.below (name :: names)) =
      (files.makeDirectoriesUpTo parts (root.below (name :: names))).map (·.without cut) := by
  induction parts generalizing names with
  | zero => exact site.ensureDirectory_without foreign named
  | succ parts ih =>
      simp only [makeDirectoriesUpTo, site.ensureDirectory_without foreign named]
      by_cases missing : files.ensureDirectory (root.below (name :: names)) = .error .notFound
      next =>
        cases whole : names using List.reverseRecOn with
        | nil => exact absurd (whole ▸ missing) site.ensureDirectory_found
        | append_singleton above last _ =>
            subst whole
            have namedAbove : ∀ part ∈ above, IsName part :=
              fun part member => named part (by simp [member])
            simp only [missing, Except.map]
            rw [Path.parent_below _ (by simp), ← List.cons_append, List.dropLast_concat,
              ih namedAbove]
            cases made : files.makeDirectoriesUpTo parts (root.below (name :: above)) with
            | error fault => rfl
            | ok prepared =>
                obtain ⟨reaches, -⟩ := site.makeDirectoriesUpTo_reaches parts namedAbove made
                exact (site.reaches reaches).ensureDirectory_without (foreign.reaches reaches) named
      next =>
        cases made : files.ensureDirectory (root.below (name :: names)) with
        | ok prepared => rfl
        | error fault =>
            cases fault <;> first
              | rfl
              | exact absurd made missing

theorem write_without (site : Site files root home name)
    (foreign : Foreign files home name cut) (named : ∀ part ∈ names, IsName part)
    (bytes : ByteArray) :
    (files.without cut).write (root.below (name :: names)) bytes =
      (files.write (root.below (name :: names)) bytes).map (·.without cut) := by
  unfold write
  rw [site.locate_without foreign named]
  cases leads : files.locate (root.below (name :: names)) with
  | error fault => rfl
  | ok there =>
      obtain rfl := site.location_eq (site.named_cons named) leads
      have seen := foreign.apart names
      have access : (files.without cut).openAccess (home ++ name :: names) =
          files.openAccess (home ++ name :: names) := by simp only [openAccess, at?_without seen]
      have volume : (files.without cut).volume = files.volume := rfl
      simp only [bind, Except.bind, isDirectoryAt_without seen, access, volume]
      split
      next => rfl
      next =>
        split
        next => rfl
        next => simp [pure, Except.pure, Except.map, overwrite_without seen]

end Site

end ScriptTyping.FileSystem
