import ScriptTyping.Proofs.FileSystem.Paths

set_option autoImplicit false

namespace ScriptTyping.FileSystem

variable {files before now next after : FileSystem} {place location : Location}
  {writes more : List (Location × ByteArray)}

theorem write_ok {path : Path} {bytes : ByteArray} :
    files.write path bytes = .ok next ↔
      ∃ location, files.locate path = .ok location ∧ files.isDirectoryAt location = false ∧
        files.volume.refuses (files.openAccess location) location = false ∧
        next = files.overwrite location bytes := by
  unfold write
  cases files.locate path with
  | error fault => simp [bind, Except.bind]
  | ok location =>
      by_cases directory : files.isDirectoryAt location = true
      next => simp [bind, Except.bind, directory]
      next =>
        by_cases refused : files.volume.refuses (files.openAccess location) location = true
        next => simp [bind, Except.bind, directory, refused]
        next => simpa [bind, Except.bind, directory, refused, pure, Except.pure] using eq_comm

theorem makeDirectory_ok {path : Path} :
    files.makeDirectory path = .ok next ↔
      ∃ location, files.locate path = .ok location ∧ files.isDirectoryAt location = false ∧
        files.at? location = none ∧ files.volume.refuses .create location = false ∧
        next = files.set location .directory := by
  unfold makeDirectory
  cases leads : files.locate path with
  | error fault => simp [bind, Except.bind]
  | ok location =>
      by_cases directory : files.isDirectoryAt location = true
      next => simp [bind, Except.bind, directory]
      next =>
        cases found : files.at? location with
        | some entry => simp [bind, Except.bind, directory, found]
        | none =>
            by_cases refused : files.volume.refuses .create location = true
            next => simp [bind, Except.bind, directory, found, refused]
            next =>
              simpa [bind, Except.bind, directory, found, refused, pure, Except.pure] using eq_comm

theorem ensureDirectory_ok {path : Path} (made : files.ensureDirectory path = .ok next) :
    files.makeDirectory path = .ok next ∨
      next = files ∧ files.look path = .ok (some .directory) := by
  unfold ensureDirectory at made
  split at made
  next made' => exact .inl (made'.trans made)
  next => simp at made
  next =>
    split at made
    next directory => exact .inr ⟨(Except.ok.inj made).symm, directory⟩
    next => simp at made

theorem ensureDirectory_of_directory {path : Path}
    (directory : files.look path = .ok (some .directory)) :
    files.ensureDirectory path = .ok files := by
  obtain ⟨location, leads, here⟩ := look_directory.mp directory
  simp [ensureDirectory, makeDirectory, leads, here, directory, bind, Except.bind]

theorem makeDirectories_of_directory {path : Path}
    (directory : files.look path = .ok (some .directory)) :
    files.makeDirectories path = .ok files := by
  unfold makeDirectories
  cases path.parts.length with
  | zero => exact ensureDirectory_of_directory directory
  | succ parts => simp [makeDirectoriesUpTo, ensureDirectory_of_directory directory]

structure Adds (before after : FileSystem) : Prop where
  volume : after.volume = before.volume
  at? : ∀ location, after.at? location = before.at? location ∨ after.at? location = some .directory

theorem Adds.trans (first : Adds before now) (second : Adds now after) : Adds before after where
  volume := second.volume.trans first.volume
  at? location := by
    rcases second.at? location with same | directory
    next => exact same ▸ first.at? location
    next => exact .inr directory

theorem ensureDirectory_adds {path : Path} (made : files.ensureDirectory path = .ok next) :
    Adds files next := by
  rcases ensureDirectory_ok made with made | ⟨rfl, -⟩
  next =>
    obtain ⟨there, -, -, -, -, rfl⟩ := makeDirectory_ok.mp made
    refine ⟨rfl, fun location => ?_⟩
    by_cases same : location = there
    next => exact .inr (same ▸ at?_set_self files there .directory)
    next => exact .inl (at?_set_other files there location _ same)
  next => exact ⟨rfl, fun _ => .inl rfl⟩

theorem makeDirectoriesUpTo_adds (parts : Nat) {path : Path}
    (made : files.makeDirectoriesUpTo parts path = .ok next) : Adds files next := by
  induction parts generalizing path next with
  | zero => exact ensureDirectory_adds made
  | succ parts ih =>
      simp only [makeDirectoriesUpTo] at made
      split at made
      next =>
        simp only [bind, Except.bind] at made
        split at made
        next => simp at made
        next above first => exact (ih first).trans (ensureDirectory_adds made)
      next => exact ensureDirectory_adds made

theorem makeDirectories_adds {path : Path} (made : files.makeDirectories path = .ok next) :
    Adds files next :=
  makeDirectoriesUpTo_adds _ made

theorem outline_overwrite (covered : covers [place] location = true) (bytes : ByteArray) :
    (files.overwrite location bytes).outline.without [place] = files.outline.without [place] := by
  unfold overwrite
  split
  next => rfl
  next => rw [outline_set, outline_fill, without_set_of_covered covered]

theorem outline_at?_overwrite {other : Location} {entry : FileEntry}
    (free : files.isDirectoryAt location = false) (bytes : ByteArray)
    (found : files.outline.at? other = some entry) :
    (files.overwrite location bytes).outline.at? other = some entry := by
  by_cases here : other = location
  next =>
    subst here
    rw [at?_outline] at found ⊢
    rw [at?_overwrite_self]
    cases held : files.at? other with
    | none => simp [held] at found
    | some old =>
        rw [held] at found
        cases old with
        | directory => exact absurd held (not_isDirectoryAt free).2
        | file => exact found
        | special => exact found
  next =>
    unfold overwrite
    split
    next => exact found
    next => rwa [outline_set, outline_fill, at?_set_other _ _ _ _ here]

def Taken (files : FileSystem) (location : Location) : Prop :=
  files.isDirectoryAt location = false ∧ (files.at? location).isSome = true

theorem taken_of_at? {entry : FileEntry} (free : files.isDirectoryAt location = false)
    (found : before.at? location = some entry) (kind : entry ≠ .directory) :
    Taken before location := by
  obtain ⟨some, -⟩ := not_isDirectoryAt free
  refine ⟨?_, by simp [found]⟩
  cases entry <;> simp_all [isDirectoryAt]

-- The second state is reached from the first by making directories and writing files, each on a
-- path that leads to a place or below it; the list tells what has been written where, in order.
inductive Reaches (place : Location) (files : FileSystem) :
    List (Location × ByteArray) → FileSystem → Prop where
  | start : Reaches place files [] files
  | directory {writes now path names next} (earlier : Reaches place files writes now)
      (leads : now.locate path = .ok (place ++ names)) (named : ∀ name ∈ names, IsName name)
      (made : now.makeDirectory path = .ok next) : Reaches place files writes next
  | file {writes now path names bytes next} (earlier : Reaches place files writes now)
      (leads : now.locate path = .ok (place ++ names)) (named : ∀ name ∈ names, IsName name)
      (below : names ≠ []) (written : now.write path bytes = .ok next) :
      Reaches place files (writes ++ [(place ++ names, bytes)]) next

namespace Reaches

theorem trans (first : Reaches place files writes now) (second : Reaches place now more after) :
    Reaches place files (writes ++ more) after := by
  induction second with
  | start => simpa using first
  | directory earlier leads named made ih => exact ih.directory leads named made
  | file earlier leads named below written ih =>
      rw [← List.append_assoc]
      exact ih.file leads named below written

theorem keeps (reaches : Reaches place files writes after) : Keeps files after := by
  induction reaches with
  | start => exact Keeps.refl files
  | directory earlier leads named made ih =>
      obtain ⟨location, -, free, -, -, rfl⟩ := makeDirectory_ok.mp made
      exact ih.trans (keeps_set free _)
  | file earlier leads named below written ih =>
      obtain ⟨location, -, free, -, rfl⟩ := write_ok.mp written
      exact ih.trans (keeps_overwrite free _)

theorem elsewhere (reaches : Reaches place files writes after) :
    after.outline.without [place] = files.outline.without [place] := by
  have hidden (names : List String) : covers [place] (place ++ names) = true :=
    covers_iff.mpr ⟨place, by simp, List.prefix_append ..⟩
  induction reaches with
  | start => rfl
  | directory earlier leads named made ih =>
      obtain ⟨location, found, -, -, -, rfl⟩ := makeDirectory_ok.mp made
      obtain rfl : _ = location := Except.ok.inj (leads.symm.trans found)
      rw [outline_set, without_set_of_covered (hidden _), ih]
  | file earlier leads named below written ih =>
      obtain ⟨location, found, -, -, rfl⟩ := write_ok.mp written
      obtain rfl : _ = location := Except.ok.inj (leads.symm.trans found)
      exact (outline_overwrite (hidden _) _).trans ih

-- Only a file that has no name at the place or below it is sure to hold what it held.
theorem spared (reaches : Reaches place files writes after)
    (spares : files.volume.Spares place location) : after.at? location = files.at? location := by
  induction reaches with
  | start => rfl
  | directory earlier leads named made ih =>
      obtain ⟨there, found, -, -, -, rfl⟩ := makeDirectory_ok.mp made
      obtain rfl : _ = there := Except.ok.inj (leads.symm.trans found)
      rw [at?_set_other _ _ _ _ (spares.outside _), ih]
  | file earlier leads named below written ih =>
      obtain ⟨there, found, -, -, rfl⟩ := write_ok.mp written
      obtain rfl : _ = there := Except.ok.inj (leads.symm.trans found)
      rw [at?_overwrite_other (earlier.keeps.volume ▸ spares _), ih]

theorem kind (reaches : Reaches place files writes after) {entry : FileEntry}
    (found : files.outline.at? location = some entry) : after.outline.at? location = some entry := by
  induction reaches with
  | start => exact found
  | @directory writes now path names next earlier leads named made ih =>
      obtain ⟨there, -, -, empty, -, rfl⟩ := makeDirectory_ok.mp made
      rw [outline_set, at?_set_other, ih]
      rintro rfl
      simp [at?_outline, empty] at ih
  | file earlier leads named below written ih =>
      obtain ⟨there, -, free, -, rfl⟩ := write_ok.mp written
      exact outline_at?_overwrite free _ ih

theorem taken (reaches : Reaches place files writes after) (taken : Taken files location) :
    Taken after location := by
  obtain ⟨free, present⟩ := taken
  obtain ⟨entry, found⟩ := Option.isSome_iff_exists.mp present
  have before : files.outline.at? location = some entry.blank := by
    rw [at?_outline, found]
    rfl
  have stays := reaches.kind before
  constructor
  next =>
    rw [← isDirectoryAt_outline, isDirectoryAt_congr (stays.trans before.symm),
      isDirectoryAt_outline]
    exact free
  next =>
    rw [at?_outline] at stays
    cases held : after.at? location with
    | none => simp [held] at stays
    | some other => rfl

theorem idle (reaches : Reaches place files writes after) (rooted : files.Rooted)
    (taken : Taken files place) : after = files := by
  obtain ⟨free, present⟩ := taken
  have unreached {path : Path} {names : List String} (below : names ≠ [])
      (leads : files.locate path = .ok (place ++ names)) : False := by
    have directory := locate_above rooted leads
    rw [List.dropLast_append_of_ne_nil below] at directory
    rw [rooted.directory_prefix directory (List.prefix_append ..)] at free
    exact Bool.noConfusion free
  induction reaches with
  | start => rfl
  | @directory writes now path names next earlier leads named made ih =>
      subst ih
      obtain ⟨there, found, -, empty, -⟩ := makeDirectory_ok.mp made
      obtain rfl : _ = there := Except.ok.inj (leads.symm.trans found)
      by_cases below : names = []
      next => simp [below] at empty; simp [empty] at present
      next => exact (unreached below leads).elim
  | file earlier leads named below written ih =>
      subst ih
      exact (unreached below leads).elim

theorem rooted (reaches : Reaches place files writes after) (rooted : files.Rooted)
    (named : IsName (place.getLastD "")) : after.Rooted := by
  -- A new entry's directory exists because a path has led to it.
  have split {now : FileSystem} (rooted : now.Rooted) {path : Path} {names : List String}
      (leads : now.locate path = .ok (place ++ names)) (all : ∀ name ∈ names, IsName name)
      (free : now.isDirectoryAt (place ++ names) = false) :
      ∃ above name, place ++ names = above ++ [name] ∧ IsName name ∧
        now.isDirectoryAt above = true := by
    have last : IsName ((place ++ names).getLastD "") := by
      cases whole : names using List.reverseRecOn with
      | nil => simpa using named
      | append_singleton names name _ =>
          rw [← List.append_assoc, List.getLastD_concat]
          exact all name (by simp [whole])
    have standing := locate_above rooted leads
    rcases List.eq_nil_or_concat (place ++ names) with nothing | ⟨above, name, whole⟩
    next => exact absurd nothing (not_isDirectoryAt free).1
    next =>
      rw [List.concat_eq_append] at whole
      rw [whole] at standing last
      exact ⟨above, name, whole, by simpa using last, by simpa using standing⟩
  induction reaches with
  | start => exact rooted
  | directory earlier leads all made ih =>
      obtain ⟨location, found, free, empty, -, rfl⟩ := makeDirectory_ok.mp made
      obtain rfl : _ = location := Except.ok.inj (leads.symm.trans found)
      obtain ⟨above, name, whole, isName, directory⟩ := split ih leads all free
      rw [whole] at empty ⊢
      exact ih.makeDirectory isName directory empty
  | file earlier leads all below written ih =>
      obtain ⟨location, found, free, -, rfl⟩ := write_ok.mp written
      obtain rfl : _ = location := Except.ok.inj (leads.symm.trans found)
      obtain ⟨above, name, whole, isName, directory⟩ := split ih leads all free
      rw [whole] at free ⊢
      exact ih.overwrite isName directory free _

end Reaches

-- The last of the writes to the file at a location, under whichever of its names.
def lastWrite (volume : Volume) (writes : List (Location × ByteArray)) (location : Location) :
    Option ByteArray :=
  (writes.reverse.find? fun entry => volume.same entry.1 location).map (·.2)

theorem lastWrite_concat {volume : Volume} (entry : Location × ByteArray) :
    lastWrite volume (writes ++ [entry]) location =
      if volume.same entry.1 location then some entry.2 else lastWrite volume writes location := by
  cases same : volume.same entry.1 location <;> simp [lastWrite, same]

theorem lastWrite_eq_none {volume : Volume} :
    lastWrite volume writes location = none ↔
      ∀ entry ∈ writes, volume.same entry.1 location = false := by
  simp [lastWrite]

structure Stored (files : FileSystem) (writes : List (Location × ByteArray)) (after : FileSystem) :
    Prop where
  special : ∀ location, files.at? location = some .special → after.at? location = some .special
  last : ∀ location bytes, files.at? location ≠ some .special →
    lastWrite files.volume writes location = some bytes → after.at? location = some (.file bytes)
  kept : ∀ location, lastWrite files.volume writes location = none →
    after.at? location = files.at? location ∨
      files.at? location = none ∧ after.at? location = some .directory

namespace Stored

theorem start (files : FileSystem) : Stored files [] files :=
  ⟨fun _ found => found, by simp [lastWrite], fun _ _ => .inl rfl⟩

theorem directory (stored : Stored files writes now) (empty : now.at? location = none) :
    Stored files writes (now.set location .directory) where
  special other special := by
    have held := stored.special other special
    rw [at?_set_other _ _ _ _ (by rintro rfl; simp [empty] at held), held]
  last other bytes ordinary last := by
    have held := stored.last other bytes ordinary last
    rw [at?_set_other _ _ _ _ (by rintro rfl; simp [empty] at held), held]
  kept other unwritten := by
    by_cases here : other = location
    next =>
      subst here
      rcases stored.kept other unwritten with same | ⟨-, directory⟩
      next => exact .inr ⟨same.symm.trans empty, at?_set_self _ _ _⟩
      next => simp [empty] at directory
    next =>
      rw [at?_set_other _ _ _ _ here]
      exact stored.kept other unwritten

theorem special_of_special (stored : Stored files writes now)
    (special : now.at? location = some .special) : files.at? location = some .special := by
  by_contra ordinary
  cases last : lastWrite files.volume writes location with
  | some bytes => simp [stored.last location bytes ordinary last] at special
  | none =>
      rcases stored.kept location last with same | ⟨-, directory⟩
      next => exact ordinary (same.symm.trans special)
      next => simp [directory] at special

theorem file (stored : Stored files writes now) (rooted : now.Rooted)
    (volume : now.volume = files.volume) (location : Location) (bytes : ByteArray) :
    Stored files (writes ++ [(location, bytes)]) (now.overwrite location bytes) where
  special other special := by
    have held := stored.special other special
    cases named : now.volume.same location other with
    | true =>
        rw [rooted.at?_overwrite_same named, at?_overwrite_self, ← rooted.at?_of_same named, held]
    | false => rw [at?_overwrite_other named, held]
  last other found ordinary last := by
    rw [lastWrite_concat, ← volume] at last
    cases named : now.volume.same location other with
    | true =>
        obtain rfl : bytes = found := by simpa [named] using last
        rw [rooted.at?_overwrite_same named, at?_overwrite_self, ← rooted.at?_of_same named]
        split
        next special => exact absurd (stored.special_of_special special) ordinary
        next => rfl
    | false =>
        rw [named, volume] at last
        rw [at?_overwrite_other named, stored.last other found ordinary (by simpa using last)]
  kept other unwritten := by
    rw [lastWrite_concat, ← volume] at unwritten
    cases named : now.volume.same location other with
    | true => simp [named] at unwritten
    | false =>
        rw [named, volume] at unwritten
        rw [at?_overwrite_other named]
        exact stored.kept other (by simpa using unwritten)

end Stored

theorem Reaches.stored (reaches : Reaches place files writes after) (rooted : files.Rooted)
    (named : IsName (place.getLastD "")) : Stored files writes after := by
  induction reaches with
  | start => exact .start files
  | directory earlier leads all made ih =>
      obtain ⟨fresh, -, -, empty, -, rfl⟩ := makeDirectory_ok.mp made
      exact ih.directory empty
  | file earlier leads all below written ih =>
      obtain ⟨target, found, -, -, rfl⟩ := write_ok.mp written
      obtain rfl : _ = target := Except.ok.inj (leads.symm.trans found)
      exact ih.file (earlier.rooted rooted named) earlier.keeps.volume _ _

theorem Reaches.below_of_mem (reaches : Reaches place files writes after)
    {entry : Location × ByteArray} (member : entry ∈ writes) :
    ∃ names, names ≠ [] ∧ entry.1 = place ++ names := by
  induction reaches with
  | start => simp at member
  | directory earlier leads named made ih => exact ih member
  | @file writes now path names bytes next earlier leads named below written ih =>
      rcases List.mem_append.mp member with old | new
      next => exact ih old
      next =>
        obtain rfl : entry = (place ++ names, bytes) := by simpa using new
        exact ⟨names, below, rfl⟩

end ScriptTyping.FileSystem
