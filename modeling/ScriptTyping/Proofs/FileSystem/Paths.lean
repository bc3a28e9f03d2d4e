import ScriptTyping.Proofs.FileSystem.Entries

set_option autoImplicit false

namespace ScriptTyping

def Path.below (path : Path) (names : List String) : Path := path.append ⟨"", names⟩

namespace Path

variable (path : Path) (names : List String)

theorem below_nil : path.below [] = path := by
  simp [below, append]

theorem child_eq_below (name : String) : path.child name = path.below [name] := rfl

theorem below_below (more : List String) :
    (path.below names).below more = path.below (names ++ more) := by
  simp [below, append]

theorem child_below (name : String) : (path.below names).child name = path.below (names ++ [name]) := by
  rw [child_eq_below, below_below]

theorem parent_below {names : List String} (some : names ≠ []) :
    (path.below names).parent = path.below names.dropLast := by
  simp [below, append, parent, List.dropLast_append_of_ne_nil some]

theorem relativeTo?_below : (path.below names).relativeTo? path = some ⟨"", names⟩ :=
  relativeTo?_append path ⟨"", names⟩ rfl

end Path

namespace FileSystem

variable {files before after : FileSystem} {cut : List Location}

def Ahead (names : List String) : Prop := ∀ name ∈ names, name ≠ ".."

theorem Ahead.tail {name : String} {names : List String} (ahead : Ahead (name :: names)) :
    Ahead names := fun other member => ahead other (List.mem_cons_of_mem _ member)

theorem follow_keeps (keeps : Keeps before after) {here there : Location} {parts : List String}
    (leads : before.follow here parts = .ok there) : after.follow here parts = .ok there := by
  induction parts generalizing here with
  | nil => exact leads
  | cons part rest ih =>
      simp only [follow] at leads ⊢
      by_cases directory : before.isDirectoryAt here = true
      next =>
        simp only [directory, keeps.directory here directory, Bool.not_true, Bool.false_eq_true,
          if_false] at leads ⊢
        split at leads
        next back =>
          rw [if_pos back]
          exact ih leads
        next onward =>
          rw [if_neg onward]
          split at leads
          next => simp at leads
          next short =>
            rw [if_neg short]
            exact ih leads
      next => simp [directory] at leads

theorem follow_ahead {here there : Location} {names : List String} (ahead : Ahead names)
    (leads : files.follow here names = .ok there) : there = here ++ names := by
  induction names generalizing here with
  | nil => simpa [follow, eq_comm] using leads
  | cons name rest ih =>
      have onward : name ≠ ".." := ahead name (by simp)
      simp only [follow, beq_iff_eq, onward, if_false] at leads
      split at leads
      next => simp at leads
      next =>
        split at leads
        next => simp at leads
        next => simpa using ih ahead.tail leads

theorem follow_without {here : Location} {names : List String} (ahead : Ahead names)
    (seen : covers cut (here ++ names) = false) :
    (files.without cut).follow here names = files.follow here names := by
  induction names generalizing here with
  | nil => rfl
  | cons name rest ih =>
      have onward : name ≠ ".." := ahead name (by simp)
      have uncovered := uncovered_of_append (name :: rest) seen
      have later : (files.without cut).follow (here ++ [name]) rest =
          files.follow (here ++ [name]) rest := ih ahead.tail (by simpa using seen)
      simp only [follow, at?_without uncovered, isDirectoryAt_without uncovered, beq_iff_eq,
        onward, if_false, later]

theorem follow_outline (here : Location) (names : List String) :
    files.outline.follow here names = files.follow here names := by
  induction names generalizing here with
  | nil => rfl
  | cons name rest ih => simp only [follow, isDirectoryAt_outline, at?_outline, Option.isSome_map, ih]

theorem follow_above (rooted : files.Rooted) {here there : Location} {parts : List String}
    (start : files.isDirectoryAt here.dropLast = true)
    (leads : files.follow here parts = .ok there) : files.isDirectoryAt there.dropLast = true := by
  induction parts generalizing here with
  | nil =>
      simp only [follow, Except.ok.injEq] at leads
      exact leads ▸ start
  | cons part rest ih =>
      simp only [follow] at leads
      split at leads
      next => simp at leads
      next directory =>
        have directory : files.isDirectoryAt here = true := by simpa using directory
        split at leads
        next => exact ih (rooted.directory_dropLast start) leads
        next =>
          split at leads
          next => simp at leads
          next => exact ih (by simpa using directory) leads

theorem Rooted.startOf (rooted : files.Rooted) (path : Path) :
    files.isDirectoryAt (files.startOf path) = true := by
  unfold FileSystem.startOf
  split
  next => exact rooted.home
  next => rfl

theorem Keeps.startOf (keeps : Keeps before after) (path : Path) :
    after.startOf path = before.startOf path := by
  simp only [FileSystem.startOf, keeps.volume]

theorem locate_keeps (keeps : Keeps before after) {path : Path} {location : Location}
    (leads : before.locate path = .ok location) : after.locate path = .ok location := by
  obtain ⟨null, short, found⟩ := locate_ok.mp leads
  exact locate_ok.mpr ⟨null, short, keeps.startOf path ▸ follow_keeps keeps found⟩

@[simp]
theorem locate_outline (path : Path) : files.outline.locate path = files.locate path := by
  have start : files.outline.startOf path = files.startOf path := rfl
  simp only [locate, follow_outline, start]

theorem locate_above (rooted : files.Rooted) {path : Path} {location : Location}
    (leads : files.locate path = .ok location) :
    files.isDirectoryAt location.dropLast = true :=
  follow_above rooted (rooted.directory_dropLast (rooted.startOf path)) (locate_ok.mp leads).2.2

theorem locate_below {path : Path} {home : Location} (leads : files.locate path = .ok home)
    (names : List String) :
    files.locate (path.below names) =
      if (path.below names).hasNull then .error .nullCharacter
      else if (path.below names).toText.utf8ByteSize > pathLimit then .error .tooLong
      else files.follow home names := by
  have found := (locate_ok.mp leads).2.2
  have way : files.follow (files.startOf path) (path.parts ++ names) = files.follow home names := by
    rw [follow_append, found]
    rfl
  unfold locate
  split
  next => rfl
  next =>
    split
    next => rfl
    next => exact way

theorem location_below {path : Path} {home location : Location}
    (leads : files.locate path = .ok home) {names : List String} (ahead : Ahead names)
    (found : files.locate (path.below names) = .ok location) : location = home ++ names := by
  rw [locate_below leads] at found
  split at found
  next => simp at found
  next =>
    split at found
    next => simp at found
    next => exact follow_ahead ahead found

theorem locate_last {path : Path} {above : List String} {last : String} {location : Location}
    (ahead : last ≠ "..") (found : files.locate (path.below (above ++ [last])) = .ok location) :
    location.getLast? = some last := by
  have way := (locate_ok.mp found).2.2
  have parts : (path.below (above ++ [last])).parts = path.parts ++ above ++ [last] := by
    simp [Path.below, Path.append]
  rw [parts, follow_append] at way
  cases led : files.follow (files.startOf (path.below (above ++ [last]))) (path.parts ++ above) with
  | error fault => simp [led, Except.bind] at way
  | ok there =>
      rw [led] at way
      have here : location = there ++ [last] := follow_ahead (by simpa [Ahead] using ahead) way
      rw [here, List.getLast?_concat]

theorem look_of_locate {path : Path} {location : Location}
    (leads : files.locate path = .ok location) :
    files.look path =
      .ok (if files.isDirectoryAt location then some .directory else files.at? location) := by
  simp [look, leads]

theorem look_directory {path : Path} :
    files.look path = .ok (some .directory) ↔
      ∃ location, files.locate path = .ok location ∧ files.isDirectoryAt location = true := by
  constructor
  next =>
    intro found
    unfold look at found
    split at found
    next location leads =>
      refine ⟨location, leads, ?_⟩
      split at found
      next directory => exact directory
      next => exact isDirectoryAt_of_at? (by simpa using found)
    next => simp at found
    next => simp at found
  next =>
    rintro ⟨location, leads, directory⟩
    rw [look_of_locate leads, if_pos directory]

theorem isDirectory_iff {path : Path} :
    files.isDirectory path = .ok true ↔ files.look path = .ok (some .directory) := by
  unfold isDirectory
  cases files.look path with
  | error fault => simp [Except.map]
  | ok found =>
      cases found with
      | none => simp [Except.map]
      | some entry => cases entry <;> simp [Except.map]

theorem look_file {path : Path} {bytes : ByteArray}
    (found : files.look path = .ok (some (.file bytes))) :
    ∃ location, files.locate path = .ok location ∧ files.isDirectoryAt location = false ∧
      files.at? location = some (.file bytes) := by
  unfold look at found
  split at found
  next location leads =>
    split at found
    next => simp at found
    next free => exact ⟨location, leads, by simpa using free, by simpa using found⟩
  next => simp at found
  next => simp at found

theorem look_congr {path : Path} (led : after.locate path = before.locate path)
    (same : ∀ location, before.locate path = .ok location →
      after.at? location = before.at? location) : after.look path = before.look path := by
  unfold look
  rw [led]
  split
  next location leads => rw [same location leads, isDirectoryAt_congr (same location leads)]
  next => rfl
  next => rfl

theorem look_outline (path : Path) :
    files.outline.look path = (files.look path).map (Option.map FileEntry.blank) := by
  unfold look
  rw [locate_outline]
  split
  next location _ =>
    simp only [isDirectoryAt_outline, at?_outline, Except.map]
    split <;> rfl
  next => rfl
  next => rfl

theorem isDirectory_outline (path : Path) : files.outline.isDirectory path = files.isDirectory path := by
  unfold isDirectory
  rw [look_outline]
  cases files.look path with
  | error fault => rfl
  | ok found =>
      cases found with
      | none => rfl
      | some entry => cases entry <;> rfl

theorem read_congr {path : Path} (volume : after.volume = before.volume)
    (led : after.locate path = before.locate path)
    (same : ∀ location, before.locate path = .ok location →
      after.at? location = before.at? location) : after.read path = before.read path := by
  unfold read
  rw [led]
  cases leads : before.locate path with
  | error fault => rfl
  | ok location =>
      simp only [bind, Except.bind]
      rw [same location leads, volume]

theorem nameBelow?_iff {location : Location} {entry : Location × FileEntry} {name : String} :
    nameBelow? location entry = some name ↔ entry.1 = location ++ [name] := by
  unfold nameBelow?
  constructor
  next =>
    intro found
    split at found
    next last above turned =>
      split at found
      next same =>
        have parts : entry.1 = above.reverse ++ [last] := by
          simpa using congrArg List.reverse turned
        rw [parts, beq_iff_eq.mp same, Option.some.inj found]
      next => simp at found
    next => simp at found
  next =>
    intro same
    simp [same]

theorem mem_list {path : Path} {location : Location} (leads : files.locate path = .ok location)
    {name : String} : name ∈ files.list path ↔ location ++ [name] ∈ files.locations := by
  simp only [list, leads, List.mem_mergeSort, List.mem_filterMap, nameBelow?_iff, locations,
    List.mem_map]

theorem list_outline (path : Path) : files.outline.list path = files.list path := by
  unfold list
  rw [locate_outline]
  split
  next => rfl
  next location _ =>
    simp only [outline, List.filterMap_map]
    rfl

theorem filter_mergeSort (keep : String → Bool) (names : List String) :
    (names.mergeSort fun a b => decide (a ≤ b)).filter keep =
      (names.filter keep).mergeSort fun a b => decide (a ≤ b) := by
  have sorted := @List.pairwise_mergeSort String (fun a b => decide (a ≤ b))
    (by simpa using fun a b c => @String.le_trans a b c) (by simpa using String.le_total)
  refine List.Perm.eq_of_pairwise ?_ ((sorted names).filter keep) (sorted (names.filter keep)) ?_
  next =>
    intro a b _ _ one other
    exact String.le_antisymm (by simpa using one) (by simpa using other)
  next => exact ((List.mergeSort_perm _ _).filter keep).trans (List.mergeSort_perm _ _).symm

theorem filter_list {path : Path} {location : Location} (leads : files.locate path = .ok location)
    (cut : List Location) :
    ((files.list path).filter fun name => !covers cut (location ++ [name])) =
      ((files.without cut).entries.filterMap (nameBelow? location)).mergeSort
        fun a b => decide (a ≤ b) := by
  simp only [list, leads, filter_mergeSort, without, List.filterMap_filter, List.filter_filterMap]
  congr 1
  refine List.filterMap_congr fun entry _ => ?_
  cases found : nameBelow? location entry with
  | none => simp
  | some name => simp [nameBelow?_iff.mp found, Option.filter]

theorem nodup_names {entries : List (Location × FileEntry)} (once : (entries.map (·.1)).Nodup)
    (location : Location) : (entries.filterMap (nameBelow? location)).Nodup := by
  induction entries with
  | nil => simp
  | cons entry rest ih =>
      obtain ⟨first, later⟩ := List.nodup_cons.mp once
      cases found : nameBelow? location entry with
      | none => simpa [found] using ih later
      | some name =>
          simp only [List.filterMap_cons, found, List.nodup_cons]
          refine ⟨fun again => first ?_, ih later⟩
          obtain ⟨other, member, same⟩ := List.mem_filterMap.mp again
          have placed : other.1 = entry.1 := by
            rw [nameBelow?_iff.mp found, nameBelow?_iff.mp same]
          exact List.mem_map.mpr ⟨other, member, placed⟩

theorem nodup_list (once : files.locations.Nodup) (path : Path) : (files.list path).Nodup := by
  unfold list
  split
  next => exact List.nodup_nil
  next location _ => exact (List.mergeSort_perm _ _).nodup_iff.mpr (nodup_names once location)

-- Outside some locations the same things are there, seen from a directory to which a path leads in
-- both. What the files hold is left open.
structure Alike (cut : List Location) (root : Path) (home : Location)
    (first second : FileSystem) : Prop where
  same : second.outline.without cut = first.outline.without cut
  leads : first.locate root = .ok home
  leadsSecond : second.locate root = .ok home

namespace Alike

variable {root : Path} {home : Location} {first second : FileSystem} {names : List String}

theorem at? (alike : Alike cut root home first second) {location : Location}
    (seen : covers cut location = false) :
    second.outline.at? location = first.outline.at? location := by
  rw [← at?_without seen, alike.same, at?_without seen]

theorem locate (alike : Alike cut root home first second) (ahead : Ahead names)
    (seen : covers cut (home ++ names) = false) :
    second.locate (root.below names) = first.locate (root.below names) := by
  rw [locate_below alike.leads, locate_below alike.leadsSecond, ← @follow_outline second,
    ← @follow_outline first, ← follow_without ahead seen,
    ← @follow_without first.outline _ _ _ ahead seen, alike.same]

theorem look (alike : Alike cut root home first second) (ahead : Ahead names)
    (seen : covers cut (home ++ names) = false) :
    second.outline.look (root.below names) = first.outline.look (root.below names) := by
  have led := alike.locate ahead seen
  refine look_congr (by simpa using led) fun location leads => alike.at? ?_
  rw [locate_outline] at leads
  exact location_below alike.leads ahead leads ▸ seen

theorem list (alike : Alike cut root home first second) (ahead : Ahead names)
    (seen : covers cut (home ++ names) = false) :
    ((second.list (root.below names)).filter
        fun name => !covers cut (home ++ (names ++ [name]))) =
      (first.list (root.below names)).filter fun name => !covers cut (home ++ (names ++ [name])) := by
  rw [← @list_outline first, ← @list_outline second]
  cases leads : first.locate (root.below names) with
  | error fault =>
      have other := (alike.locate ahead seen).trans leads
      simp [FileSystem.list, leads, other]
  | ok location =>
      obtain rfl := location_below alike.leads ahead leads
      have other := (alike.locate ahead seen).trans leads
      simp only [← List.append_assoc]
      rw [filter_list ((locate_outline _).trans leads), filter_list ((locate_outline _).trans other),
        alike.same]

end Alike

end FileSystem

end ScriptTyping
