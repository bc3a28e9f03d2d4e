import Mathlib.Data.List.Induction
import Mathlib.Data.List.Nodup
import Mathlib.Tactic.Tauto
import ScriptTyping.FileSystem

set_option autoImplicit false

namespace ScriptTyping

namespace Volume

variable {volume : Volume} {one other third : Location}

def same (volume : Volume) (one other : Location) : Bool := one == other || volume.shares one other

theorem shares_iff :
    volume.shares one other = true ↔
      ∃ number, volume.link? one = some number ∧ volume.link? other = some number := by
  unfold shares
  cases volume.link? one <;> simp

theorem same_iff : volume.same one other = true ↔ one = other ∨ volume.shares one other = true := by
  simp [same]

@[simp]
theorem same_self (volume : Volume) (location : Location) : volume.same location location = true := by
  simp [same]

theorem same_symm (named : volume.same one other = true) : volume.same other one = true := by
  rcases same_iff.mp named with rfl | shared
  next => exact same_self ..
  next =>
    obtain ⟨number, first, second⟩ := shares_iff.mp shared
    exact same_iff.mpr (.inr (shares_iff.mpr ⟨number, second, first⟩))

theorem same_trans (first : volume.same one other = true) (second : volume.same other third = true) :
    volume.same one third = true := by
  rcases same_iff.mp first with rfl | shared
  next => exact second
  next =>
    rcases same_iff.mp second with rfl | onward
    next => exact first
    next =>
      obtain ⟨number, left, middle⟩ := shares_iff.mp shared
      obtain ⟨others, again, right⟩ := shares_iff.mp onward
      obtain rfl := Option.some.inj (middle.symm.trans again)
      exact same_iff.mpr (.inr (shares_iff.mpr ⟨number, left, right⟩))

structure Plain (volume : Volume) : Prop where
  single : ∀ location, volume.link? location = none
  granted : ∀ access location, volume.refuses access location = false

theorem Plain.same_eq (plain : volume.Plain) (one other : Location) :
    volume.same one other = (one == other) := by
  simp [same, shares, plain.single]

-- No file has names both at or below a place and elsewhere.
def Sealed (volume : Volume) (place : Location) : Prop :=
  ∀ inside outside, place <+: inside → ¬place <+: outside → volume.shares inside outside = false

theorem Plain.sealed (plain : volume.Plain) (place : Location) : volume.Sealed place := by
  intro inside outside _ _
  simp [shares, plain.single]

-- What has been written at or below a place can be written again.
def Rewritable (volume : Volume) (place : Location) : Prop :=
  ∀ names, volume.refuses .write (place ++ names) = false

-- Whatever is written at or below a place is not written to this file.
def Spares (volume : Volume) (place location : Location) : Prop :=
  ∀ names, volume.same (place ++ names) location = false

theorem Sealed.spares {place location : Location} (closed : volume.Sealed place)
    (outside : ¬place <+: location) : volume.Spares place location := by
  intro names
  by_contra named
  rcases same_iff.mp (by simpa using named) with rfl | shared
  next => exact outside (List.prefix_append ..)
  next =>
    rw [closed _ _ (List.prefix_append ..) outside] at shared
    exact Bool.noConfusion shared

theorem Spares.outside {place location : Location} (spares : volume.Spares place location)
    (names : List String) : location ≠ place ++ names := by
  rintro rfl
  have named := spares names
  rw [same_self] at named
  exact Bool.noConfusion named

end Volume

namespace FileSystem

def locations (files : FileSystem) : List Location := files.entries.map (·.1)

theorem mem_locations {files : FileSystem} {location : Location} :
    location ∈ files.locations ↔ ∃ entry, (location, entry) ∈ files.entries := by
  simp [locations]

theorem mem_of_at? {files : FileSystem} {location : Location} {entry : FileEntry}
    (found : files.at? location = some entry) : (location, entry) ∈ files.entries := by
  simp only [at?, Option.map_eq_some_iff] at found
  obtain ⟨⟨place, _⟩, first, rfl⟩ := found
  have same : place = location := by simpa using List.find?_some first
  exact same ▸ List.mem_of_find?_eq_some first

theorem at?_eq_none {files : FileSystem} {location : Location} :
    files.at? location = none ↔ location ∉ files.locations := by
  simp only [at?, locations, Option.map_eq_none_iff, List.find?_eq_none, List.mem_map]
  constructor
  next =>
    rintro none ⟨entry, member, rfl⟩
    exact none entry member (by simp)
  next =>
    intro absent entry member same
    exact absent ⟨entry, member, by simpa using same⟩

theorem at?_of_mem {files : FileSystem} {location : Location} {entry : FileEntry}
    (once : files.locations.Nodup) (member : (location, entry) ∈ files.entries) :
    files.at? location = some entry := by
  cases found : files.at? location with
  | none => exact absurd (mem_locations.mpr ⟨entry, member⟩) (at?_eq_none.mp found)
  | some other =>
      have same := List.inj_on_of_nodup_map once (mem_of_at? found) member rfl
      simp only [Prod.mk.injEq, true_and] at same
      rw [same]

theorem eq_of_at? {first second : FileSystem} (once : first.locations.Nodup)
    (volume : second.volume = first.volume) (order : second.locations = first.locations)
    (same : ∀ location, second.at? location = first.at? location) : second = first := by
  suffices equal : second.entries = first.entries by
    cases first
    cases second
    obtain rfl := volume
    obtain rfl := equal
    rfl
  have long : second.entries.length = first.entries.length := by
    simpa [locations] using congrArg List.length order
  refine List.ext_getElem long fun index inSecond inFirst => ?_
  have placed : second.entries[index].1 = first.entries[index].1 := by
    have at_index := congrArg (fun all => all[index]?) order
    simpa [locations, inFirst, inSecond] using at_index
  have one : second.at? second.entries[index].1 = some second.entries[index].2 :=
    at?_of_mem (order.symm ▸ once) (List.getElem_mem inSecond)
  have other : first.at? first.entries[index].1 = some first.entries[index].2 :=
    at?_of_mem once (List.getElem_mem inFirst)
  rw [placed, same, other] at one
  exact Prod.ext placed (by simpa using one.symm)

theorem mem_put {location : Location} {entry : FileEntry} {entries : List (Location × FileEntry)}
    {place : Location} :
    place ∈ (put location entry entries).map (·.1) ↔
      place = location ∨ place ∈ entries.map (·.1) := by
  induction entries with
  | nil => simp [put]
  | cons old rest ih =>
      by_cases same : old.1 = location
      next => simp [put, same]
      next =>
        simp only [put, beq_iff_eq, same, if_false, List.map_cons, List.mem_cons, ih]
        tauto

theorem nodup_put {entries : List (Location × FileEntry)} (once : (entries.map (·.1)).Nodup)
    (location : Location) (entry : FileEntry) :
    ((put location entry entries).map (·.1)).Nodup := by
  induction entries with
  | nil => simp [put]
  | cons old rest ih =>
      simp only [List.map_cons, List.nodup_cons] at once
      by_cases same : old.1 = location
      next =>
        subst same
        simpa only [put, beq_self_eq_true, if_true, List.map_cons, List.nodup_cons] using once
      next =>
        simp only [put, beq_iff_eq, same, if_false, List.map_cons, List.nodup_cons]
        exact ⟨fun member => (mem_put.mp member).elim same once.1, ih once.2⟩

theorem map_put_of_mem {entries : List (Location × FileEntry)} {location : Location}
    (present : location ∈ entries.map (·.1)) (entry : FileEntry) :
    (put location entry entries).map (·.1) = entries.map (·.1) := by
  induction entries with
  | nil => simp at present
  | cons old rest ih =>
      by_cases same : old.1 = location
      next => simp [put, same]
      next =>
        have later : location ∈ rest.map (·.1) :=
          (List.mem_cons.mp present).resolve_left (Ne.symm same)
        simpa [put, same] using ih later

theorem mem_locations_set {files : FileSystem} {location place : Location} {entry : FileEntry} :
    place ∈ (files.set location entry).locations ↔ place = location ∨ place ∈ files.locations :=
  mem_put

theorem nodup_locations_set {files : FileSystem} (once : files.locations.Nodup)
    (location : Location) (entry : FileEntry) : (files.set location entry).locations.Nodup :=
  nodup_put once location entry

theorem locations_set_of_mem {files : FileSystem} {location : Location}
    (present : location ∈ files.locations) (entry : FileEntry) :
    (files.set location entry).locations = files.locations :=
  map_put_of_mem present entry

theorem filter_put (keep : Location → Bool) {location : Location} {entry : FileEntry}
    (dropped : keep location = false) (entries : List (Location × FileEntry)) :
    (put location entry entries).filter (fun old => keep old.1) =
      entries.filter fun old => keep old.1 := by
  induction entries with
  | nil => simp [put, dropped]
  | cons old rest ih =>
      by_cases same : old.1 == location
      next =>
        have here : old.1 = location := by simpa using same
        simp [put, here, dropped]
      next =>
        simp only [put, same, if_false, Bool.false_eq_true, List.filter_cons, ih]

theorem filter_put_kept (keep : Location → Bool) {location : Location} {entry : FileEntry}
    (kept : keep location = true) (entries : List (Location × FileEntry)) :
    (put location entry entries).filter (fun old => keep old.1) =
      put location entry (entries.filter fun old => keep old.1) := by
  induction entries with
  | nil => simp [put, kept]
  | cons old rest ih =>
      by_cases same : old.1 == location
      next =>
        have here : old.1 = location := by simpa using same
        simp [put, here, kept]
      next =>
        by_cases keeps : keep old.1 <;>
          simp [put, same, keeps, ih]

theorem isDirectoryAt_congr {first second : FileSystem} {location : Location}
    (same : second.at? location = first.at? location) :
    second.isDirectoryAt location = first.isDirectoryAt location := by
  simp [isDirectoryAt, same]

theorem isDirectoryAt_of_at? {files : FileSystem} {location : Location}
    (found : files.at? location = some .directory) : files.isDirectoryAt location = true := by
  simp [isDirectoryAt, found]

theorem not_isDirectoryAt {files : FileSystem} {location : Location}
    (none : files.isDirectoryAt location = false) :
    location ≠ [] ∧ files.at? location ≠ some .directory := by
  refine ⟨?_, ?_⟩
  next =>
    rintro rfl
    simp [isDirectoryAt] at none
  next =>
    intro found
    rw [isDirectoryAt_of_at? found] at none
    exact Bool.noConfusion none

structure Keeps (before after : FileSystem) : Prop where
  volume : after.volume = before.volume
  directory : ∀ location, before.isDirectoryAt location = true → after.isDirectoryAt location = true

theorem Keeps.refl (files : FileSystem) : Keeps files files := ⟨rfl, fun _ directory => directory⟩

theorem Keeps.trans {first second third : FileSystem} (one : Keeps first second)
    (other : Keeps second third) : Keeps first third :=
  ⟨other.volume.trans one.volume,
    fun location directory => other.directory location (one.directory location directory)⟩

theorem keeps_set {files : FileSystem} {location : Location}
    (free : files.isDirectoryAt location = false) (entry : FileEntry) :
    Keeps files (files.set location entry) := by
  refine ⟨rfl, fun place directory => ?_⟩
  have apart : place ≠ location := by
    rintro rfl
    rw [directory] at free
    exact Bool.noConfusion free
  rw [isDirectoryAt_congr (at?_set_other files location place entry apart)]
  exact directory

structure IsName (name : String) : Prop where
  ahead : name ≠ ".."
  whole : '/' ∉ name.toList

instance (name : String) : Decidable (IsName name) :=
  decidable_of_iff (name ≠ ".." ∧ '/' ∉ name.toList)
    ⟨fun both => ⟨both.1, both.2⟩, fun named => ⟨named.ahead, named.whole⟩⟩

-- Each entry has a name and stands in a directory, and the names of one file hold the same.
structure Rooted (files : FileSystem) : Prop where
  once : files.locations.Nodup
  standing : ∀ location ∈ files.locations, location ≠ [] ∧ IsName (location.getLastD "") ∧
    files.isDirectoryAt location.dropLast = true
  home : files.isDirectoryAt files.volume.home = true
  shared : ∀ one other, files.volume.shares one other = true →
    ∃ bytes, files.at? one = some (.file bytes) ∧ files.at? other = some (.file bytes)

structure Proper (files : FileSystem) : Prop extends Rooted files where
  plain : files.volume.Plain

theorem Rooted.of_single {files : FileSystem} (single : ∀ location, files.volume.link? location = none)
    (once : files.locations.Nodup)
    (standing : ∀ location ∈ files.locations, location ≠ [] ∧ IsName (location.getLastD "") ∧
      files.isDirectoryAt location.dropLast = true)
    (home : files.isDirectoryAt files.volume.home = true) : files.Rooted :=
  ⟨once, standing, home, by simp [Volume.shares, single]⟩

namespace Rooted

variable {files : FileSystem}

theorem named (rooted : files.Rooted) {above : Location} {name : String}
    (member : above ++ [name] ∈ files.locations) : IsName name := by
  simpa using (rooted.standing _ member).2.1

theorem directory_dropLast (rooted : files.Rooted) {location : Location}
    (directory : files.isDirectoryAt location = true) :
    files.isDirectoryAt location.dropLast = true := by
  by_cases present : location ∈ files.locations
  next => exact (rooted.standing location present).2.2
  next =>
    obtain rfl : location = [] := by
      simpa [isDirectoryAt, at?_eq_none.mpr present] using directory
    rfl

theorem directory_prefix (rooted : files.Rooted) {above location : Location}
    (directory : files.isDirectoryAt location = true) (within : above <+: location) :
    files.isDirectoryAt above = true := by
  obtain ⟨names, rfl⟩ := within
  induction names using List.reverseRecOn with
  | nil => simpa using directory
  | append_singleton names name ih =>
      have next := rooted.directory_dropLast directory
      rw [← List.append_assoc, List.dropLast_concat] at next
      exact ih next

theorem directory_of_below (rooted : files.Rooted) {above : Location} {names : List String}
    (some : names ≠ []) (member : above ++ names ∈ files.locations) :
    files.isDirectoryAt above = true := by
  refine rooted.directory_prefix (rooted.standing _ member).2.2 ?_
  rw [List.dropLast_append_of_ne_nil some]
  exact List.prefix_append ..

theorem at?_of_same (rooted : files.Rooted) {one other : Location}
    (named : files.volume.same one other = true) : files.at? other = files.at? one := by
  rcases Volume.same_iff.mp named with rfl | shared
  next => rfl
  next =>
    obtain ⟨bytes, first, second⟩ := rooted.shared one other shared
    rw [first, second]

theorem place (rooted : files.Rooted) {above : Location} {name : String} {next : FileSystem}
    (isName : IsName name) (directory : files.isDirectoryAt above = true)
    (keeps : Keeps files next) (once : next.locations.Nodup)
    (places : ∀ place ∈ next.locations, place = above ++ [name] ∨ place ∈ files.locations)
    (shared : ∀ one other, next.volume.shares one other = true →
      ∃ bytes, next.at? one = some (.file bytes) ∧ next.at? other = some (.file bytes)) :
    next.Rooted := by
  refine ⟨once, fun place member => ?_, ?_, shared⟩
  next =>
    rcases places place member with rfl | old
    next => simpa using ⟨isName, keeps.directory above directory⟩
    next =>
      obtain ⟨some, standing, within⟩ := rooted.standing place old
      exact ⟨some, standing, keeps.directory _ within⟩
  next =>
    rw [keeps.volume]
    exact keeps.directory _ rooted.home

theorem makeDirectory (rooted : files.Rooted) {above : Location} {name : String}
    (isName : IsName name) (directory : files.isDirectoryAt above = true)
    (empty : files.at? (above ++ [name]) = none) :
    (files.set (above ++ [name]) .directory).Rooted := by
  have free : files.isDirectoryAt (above ++ [name]) = false := by simp [isDirectoryAt, empty]
  refine rooted.place isName directory (keeps_set free _) (nodup_locations_set rooted.once _ _)
    (fun _ member => mem_locations_set.mp member) fun one other shared => ?_
  obtain ⟨bytes, first, second⟩ := rooted.shared one other shared
  refine ⟨bytes, ?_, ?_⟩
  next => rwa [at?_set_other _ _ _ _ (by rintro rfl; simp [empty] at first)]
  next => rwa [at?_set_other _ _ _ _ (by rintro rfl; simp [empty] at second)]

end Rooted

section Writing

variable {files : FileSystem} {location other : Location} {bytes : ByteArray}

theorem refill_fst (volume : Volume) (location : Location) (bytes : ByteArray)
    (entry : Location × FileEntry) : (refill volume location bytes entry).1 = entry.1 := by
  obtain ⟨place, kind⟩ := entry
  cases kind <;> rfl

@[simp]
theorem locations_fill (files : FileSystem) (location : Location) (bytes : ByteArray) :
    (files.fill location bytes).locations = files.locations := by
  simp [locations, fill, Function.comp_def, refill_fst]

theorem at?_fill (files : FileSystem) (location other : Location) (bytes : ByteArray) :
    (files.fill location bytes).at? other =
      (files.at? other).map fun entry => (refill files.volume location bytes (other, entry)).2 := by
  simp only [at?, fill]
  induction files.entries with
  | nil => rfl
  | cons entry rest ih =>
      by_cases here : entry.1 = other
      next =>
        subst here
        simp [refill_fst]
      next => simpa [refill_fst, here] using ih

theorem at?_fill_other (apart : files.volume.shares location other = false) :
    (files.fill location bytes).at? other = files.at? other := by
  rw [at?_fill]
  cases files.at? other with
  | none => rfl
  | some entry => cases entry <;> simp [refill, apart]

theorem isDirectoryAt_fill (files : FileSystem) (location other : Location) (bytes : ByteArray) :
    (files.fill location bytes).isDirectoryAt other = files.isDirectoryAt other := by
  unfold isDirectoryAt
  rw [at?_fill]
  cases files.at? other with
  | none => rfl
  | some entry => cases entry <;> rfl

@[simp]
theorem volume_overwrite (files : FileSystem) (location : Location) (bytes : ByteArray) :
    (files.overwrite location bytes).volume = files.volume := by
  unfold overwrite
  split <;> rfl

theorem at?_overwrite_other (apart : files.volume.same location other = false) :
    (files.overwrite location bytes).at? other = files.at? other := by
  simp only [Volume.same, Bool.or_eq_false_iff, beq_eq_false_iff_ne] at apart
  unfold overwrite
  split
  next => rfl
  next => rw [at?_set_other _ _ _ _ apart.1.symm, at?_fill_other apart.2]

theorem at?_overwrite_self (files : FileSystem) (location : Location) (bytes : ByteArray) :
    (files.overwrite location bytes).at? location =
      match files.at? location with
      | some .special => some .special
      | _ => some (.file bytes) := by
  unfold overwrite
  split
  next special => rw [special]
  next ordinary => simp [at?_set_self]

theorem Rooted.at?_overwrite_same (rooted : files.Rooted)
    (named : files.volume.same location other = true) :
    (files.overwrite location bytes).at? other = (files.overwrite location bytes).at? location := by
  rcases Volume.same_iff.mp named with rfl | shared
  next => rfl
  next =>
    obtain ⟨old, first, second⟩ := rooted.shared location other shared
    rw [at?_overwrite_self, first]
    simp only [overwrite, first]
    by_cases here : other = location
    next => exact here ▸ at?_set_self ..
    next => simp [at?_set_other _ _ _ _ here, at?_fill, second, refill, shared]

theorem keeps_overwrite (free : files.isDirectoryAt location = false) (bytes : ByteArray) :
    Keeps files (files.overwrite location bytes) := by
  refine ⟨volume_overwrite .., fun place directory => ?_⟩
  unfold overwrite
  split
  next => exact directory
  next =>
    refine (keeps_set ?_ _).directory place ?_
    next => rwa [isDirectoryAt_fill]
    next => rwa [isDirectoryAt_fill]

theorem mem_locations_overwrite {place : Location}
    (member : place ∈ (files.overwrite location bytes).locations) :
    place = location ∨ place ∈ files.locations := by
  unfold overwrite at member
  split at member
  next => exact .inr member
  next => simpa using mem_locations_set.mp member

theorem nodup_locations_overwrite (once : files.locations.Nodup) (location : Location)
    (bytes : ByteArray) : (files.overwrite location bytes).locations.Nodup := by
  unfold overwrite
  split
  next => exact once
  next => exact nodup_locations_set (by simpa using once) ..

theorem locations_overwrite (present : location ∈ files.locations) (bytes : ByteArray) :
    (files.overwrite location bytes).locations = files.locations := by
  unfold overwrite
  split
  next => rfl
  next => rw [locations_set_of_mem (by simpa using present), locations_fill]

theorem Rooted.overwrite (rooted : files.Rooted) {above : Location} {name : String}
    (isName : IsName name) (directory : files.isDirectoryAt above = true)
    (free : files.isDirectoryAt (above ++ [name]) = false) (bytes : ByteArray) :
    (files.overwrite (above ++ [name]) bytes).Rooted := by
  refine rooted.place isName directory (keeps_overwrite free _)
    (nodup_locations_overwrite rooted.once _ _) (fun _ => mem_locations_overwrite)
    fun one other shared => ?_
  rw [volume_overwrite] at shared
  obtain ⟨old, first, second⟩ := rooted.shared one other shared
  have named : files.volume.same one other = true := Volume.same_iff.mpr (.inr shared)
  cases here : files.volume.same (above ++ [name]) one with
  | false =>
      have there : files.volume.same (above ++ [name]) other = false := by
        by_contra there
        rw [Volume.same_trans (by simpa using there) (Volume.same_symm named)] at here
        exact Bool.noConfusion here
      rw [at?_overwrite_other here, at?_overwrite_other there]
      exact ⟨old, first, second⟩
  | true =>
      have held := at?_overwrite_self files (above ++ [name]) bytes
      rw [← rooted.at?_of_same here, first] at held
      rw [rooted.at?_overwrite_same here,
        rooted.at?_overwrite_same (Volume.same_trans here named), held]
      exact ⟨bytes, rfl, rfl⟩

end Writing

def covers (cut : List Location) (location : Location) : Bool :=
  cut.any (·.isPrefixOf location)

def without (files : FileSystem) (cut : List Location) : FileSystem :=
  { files with entries := files.entries.filter fun entry => !covers cut entry.1 }

variable {files : FileSystem} {cut : List Location} {location : Location}

theorem covers_iff : covers cut location = true ↔ ∃ place ∈ cut, place <+: location := by
  simp [covers, List.isPrefixOf_iff_prefix]

theorem covers_append (covered : covers cut location = true) (names : List String) :
    covers cut (location ++ names) = true := by
  obtain ⟨place, member, within⟩ := covers_iff.mp covered
  exact covers_iff.mpr ⟨place, member, within.trans (List.prefix_append ..)⟩

theorem uncovered_of_append (names : List String) (open_ : covers cut (location ++ names) = false) :
    covers cut location = false := by
  by_contra covered
  rw [covers_append (by simpa using covered)] at open_
  exact Bool.noConfusion open_

theorem at?_without (seen : covers cut location = false) :
    (files.without cut).at? location = files.at? location := by
  simp only [at?, without, List.find?_filter]
  congr 2
  funext entry
  by_cases same : entry.1 = location
  next => simp [same, seen]
  next => simp [same]

theorem isDirectoryAt_without (seen : covers cut location = false) :
    (files.without cut).isDirectoryAt location = files.isDirectoryAt location :=
  isDirectoryAt_congr (at?_without seen)

theorem without_set_of_covered (hidden : covers cut location = true) (entry : FileEntry) :
    (files.set location entry).without cut = files.without cut := by
  simp only [without, set]
  congr 1
  exact filter_put (fun place => !covers cut place) (by simp [hidden]) files.entries

theorem without_set (seen : covers cut location = false) (entry : FileEntry) :
    (files.set location entry).without cut = (files.without cut).set location entry := by
  simp only [without, set]
  congr 1
  exact filter_put_kept (fun place => !covers cut place) (by simp [seen]) files.entries

theorem fill_without (cut : List Location) (bytes : ByteArray) :
    (files.fill location bytes).without cut = (files.without cut).fill location bytes := by
  simp only [without, fill, List.filter_map, Function.comp_def, refill_fst]

theorem overwrite_without (seen : covers cut location = false) (bytes : ByteArray) :
    (files.overwrite location bytes).without cut = (files.without cut).overwrite location bytes := by
  simp only [overwrite, at?_without seen]
  split
  next => rfl
  next => rw [without_set seen, fill_without]

end FileSystem

def FileEntry.blank : FileEntry → FileEntry
  | .file _ => .file ⟨#[]⟩
  | entry => entry

namespace FileSystem

-- The same file system with nothing in its files.
def outline (files : FileSystem) : FileSystem :=
  { files with entries := files.entries.map fun entry => (entry.1, entry.2.blank) }

theorem at?_outline (files : FileSystem) (location : Location) :
    files.outline.at? location = (files.at? location).map FileEntry.blank := by
  simp [at?, outline, List.find?_map, Function.comp_def]

@[simp]
theorem locations_outline (files : FileSystem) : files.outline.locations = files.locations := by
  simp [locations, outline, Function.comp_def]

@[simp]
theorem isDirectoryAt_outline (files : FileSystem) (location : Location) :
    files.outline.isDirectoryAt location = files.isDirectoryAt location := by
  unfold isDirectoryAt
  rw [at?_outline]
  cases files.at? location with
  | none => rfl
  | some entry => cases entry <;> rfl

theorem outline_set (files : FileSystem) (location : Location) (entry : FileEntry) :
    (files.set location entry).outline = files.outline.set location entry.blank := by
  simp only [outline, set]
  congr 1
  induction files.entries with
  | nil => rfl
  | cons old rest ih =>
      by_cases same : old.1 == location
      next => simp [put, same]
      next => simp [put, same, ih]

theorem outline_fill (files : FileSystem) (location : Location) (bytes : ByteArray) :
    (files.fill location bytes).outline = files.outline := by
  simp only [outline, fill, List.map_map, Function.comp_def]
  congr 2
  funext entry
  obtain ⟨place, kind⟩ := entry
  cases kind <;> rfl

theorem outline_without (files : FileSystem) (cut : List Location) :
    (files.without cut).outline = files.outline.without cut := by
  simp [outline, without, List.filter_map, Function.comp_def]

end ScriptTyping.FileSystem
