import ScriptTyping.Proofs.Discovery.Search

set_option autoImplicit false

namespace ScriptTyping

namespace FileSystem

variable {files : FileSystem}

theorem toText_parent (anchor : String) (above : List String) (last : String) :
    (Path.toText ⟨anchor, above⟩).utf8ByteSize ≤
      max 1 (Path.toText ⟨anchor, above ++ [last]⟩).utf8ByteSize := by
  cases above with
  | nil =>
      by_cases plain : anchor.isEmpty = true
      next =>
        refine Nat.le_trans ?_ (Nat.le_max_left ..)
        simp [Path.toText, plain, show ".".utf8ByteSize = 1 from rfl]
      next =>
        refine Nat.le_trans ?_ (Nat.le_max_right ..)
        simp [Path.toText, plain, String.utf8ByteSize_append]
  | cons first rest =>
      refine Nat.le_trans ?_ (Nat.le_max_right ..)
      have whole := String.intercalate_append_of_ne_nil (s := "/") (List.cons_ne_nil first rest)
        (List.cons_ne_nil last [])
      simp only [Path.toText, List.isEmpty_cons, List.cons_append, Bool.and_false,
        Bool.false_eq_true, if_false, String.utf8ByteSize_append] at whole ⊢
      rw [whole, String.utf8ByteSize_append, String.utf8ByteSize_append]
      omega

theorem follow_to_file (rooted : files.Rooted) {home location : Location} {name : String}
    (way : files.follow home [name] = .ok location)
    (free : files.isDirectoryAt location = false) :
    files.isDirectoryAt home = true ∧ location = home ++ [name] := by
  simp only [follow] at way
  split at way
  next => simp at way
  next inside =>
    have directory : files.isDirectoryAt home = true := by simpa using inside
    split at way
    next =>
      have ends : files.isDirectoryAt location = true := by
        rw [← Except.ok.inj way]
        exact rooted.directory_dropLast directory
      simp [ends] at free
    next =>
      split at way
      next => simp at way
      next => exact ⟨directory, (Except.ok.inj way).symm⟩

theorem locate_prefix {anchor name : String} {above : List String} {location home : Location}
    (leads : files.locate ⟨anchor, above ++ [name]⟩ = .ok location)
    (up : files.follow (files.startOf ⟨anchor, above ++ [name]⟩) above = .ok home) :
    files.locate ⟨anchor, above⟩ = .ok home := by
  obtain ⟨null, short, -⟩ := locate_ok.mp leads
  refine locate_ok.mpr ⟨?_, ?_, up⟩
  next =>
    simpa [Path.hasNull] using fun part member => by
      have all := null
      simp only [Path.hasNull, List.any_eq_false, List.mem_append] at all
      simpa using all part (.inl member)
  next =>
    have shorter := toText_parent anchor above name
    have one : 1 ≤ pathLimit := by decide
    omega

theorem parent_of_file (rooted : files.Rooted) {path : Path} {bytes : ByteArray}
    (found : files.look path = .ok (some (.file bytes))) :
    ∃ home name, files.locate path.parent = .ok home ∧ files.isDirectoryAt home = true ∧
      IsName name ∧ path = path.parent.below [name] ∧ files.locate path = .ok (home ++ [name]) := by
  obtain ⟨location, leads, free, present⟩ := look_file found
  obtain ⟨-, -, way⟩ := locate_ok.mp leads
  obtain ⟨anchor, parts⟩ := path
  cases parts using List.reverseRecOn with
  | nil =>
      obtain rfl : files.startOf ⟨anchor, []⟩ = location := by simpa [follow] using way
      rw [rooted.startOf] at free
      exact Bool.noConfusion free
  | append_singleton above name _ =>
      have parent : Path.parent ⟨anchor, above ++ [name]⟩ = ⟨anchor, above⟩ := by
        simp [Path.parent]
      rw [follow_append] at way
      cases up : files.follow (files.startOf ⟨anchor, above ++ [name]⟩) above with
      | error fault => simp [up, Except.bind] at way
      | ok home =>
          simp only [up, Except.bind] at way
          obtain ⟨directory, rfl⟩ := follow_to_file rooted way free
          have named := rooted.named (mem_locations.mpr ⟨_, mem_of_at? present⟩)
          exact ⟨home, name, parent ▸ locate_prefix leads up, directory, named,
            by simp [parent, Path.below, Path.append], leads⟩

end FileSystem

namespace Scope

open FileSystem

variable {scope : Scope} {files after : FileSystem} {home : Location} {settings : Settings}
  {writes : List (Location × ByteArray)} {names : List String}

-- The scope works on a directory of the file system, or on one file in it.
structure Stands (scope : Scope) (files : FileSystem) (home : Location) : Prop where
  site : Site files scope.root home scope.settings.outRoot
  input : scope.input = scope.root ∨ ∃ name bytes, IsName name ∧
    scope.input = scope.root.below [name] ∧ files.locate scope.input = .ok (home ++ [name]) ∧
    files.look scope.input = .ok (some (.file bytes))

theorem stands_of_resolve (rooted : files.Rooted) {input : Path}
    (named : IsName settings.outRoot) (resolved : resolve files input settings = .ok scope) :
    scope.settings = settings ∧ scope.input = input ∧ ∃ home, scope.Stands files home := by
  unfold resolve at resolved
  split at resolved
  next => simp at resolved
  next directory =>
    obtain rfl := Except.ok.inj resolved
    obtain ⟨home, leads, here⟩ := look_directory.mp directory
    exact ⟨rfl, rfl, home, ⟨rooted, leads, here, named⟩, .inl rfl⟩
  next bytes found =>
    split at resolved
    next =>
      obtain rfl := Except.ok.inj resolved
      obtain ⟨home, name, leads, here, isName, path, leadsFile⟩ := parent_of_file rooted found
      exact ⟨rfl, rfl, home, ⟨rooted, leads, here, named⟩,
        .inr ⟨name, bytes, isName, path, leadsFile, found⟩⟩
    next => simp at resolved
  next => simp at resolved
  next => simp at resolved

theorem Stands.isDirectory (stands : scope.Stands files home) (input : scope.input = scope.root) :
    files.isDirectory scope.input = .ok true :=
  isDirectory_iff.mpr (look_directory.mpr ⟨home, input ▸ stands.site.leads, stands.site.directory⟩)

theorem isDirectory_of_file {path : Path} {bytes : ByteArray}
    (found : files.look path = .ok (some (.file bytes))) : files.isDirectory path = .ok false := by
  simp [isDirectory, found, Except.map]

def listing (scope : Scope) (files : FileSystem) : List (List String) × Option SearchFault :=
  match files.isDirectory scope.input with
  | .ok true => scope.searchFrom files (stepBudget files) (scope.childrenOf files [])
  | _ => ([[scope.input.name]], none)

theorem startEntries_eq (input : scope.input = scope.root) :
    scope.startEntries files = (scope.childrenOf files []).map scope.root.below := by
  rw [← entriesOf_below, startEntries, input, Path.below_nil]

theorem Stands.sources_eq (stands : scope.Stands files home) :
    scope.sources files =
      match scope.listing files with
      | (found, none) => .ok (found.map scope.root.below)
      | (_, some fault) => .error fault := by
  unfold sources listing
  rcases stands.input with input | ⟨name, bytes, -, input, -, found⟩
  next =>
    rw [stands.isDirectory input]
    simp only [startEntries_eq input, sourcesFrom_eq]
    cases scope.searchFrom files (stepBudget files) (scope.childrenOf files []) with
    | mk found fault => cases fault <;> simp [Except.map]
  next =>
    rw [isDirectory_of_file found]
    simp [input, Path.below, Path.append, Path.name]

theorem Stands.listed_children (stands : scope.Stands files home) :
    ∀ names ∈ scope.childrenOf files [], Listed files home names :=
  fun _ member => listed_of_child stands.site.rooted stands.site.leads (by simp) member

theorem Stands.underway (stands : scope.Stands files home) :
    Underway files home (stepBudget files) (scope.childrenOf files []) where
  listed := stands.listed_children
  enough := Nat.le_succ_of_le (load_start scope stands.site.rooted home)

theorem Stands.listing_named (stands : scope.Stands files home) :
    ∀ names ∈ (scope.listing files).1, (∀ name ∈ names, IsName name) ∧ names ≠ [] := by
  intro names found
  unfold listing at found
  rcases stands.input with input | ⟨name, bytes, named, input, -, file⟩
  next =>
    rw [stands.isDirectory input] at found
    obtain ⟨listed, -⟩ := searchFrom_found stands.site.rooted stands.site.leads _
      stands.listed_children names found
    exact ⟨listed.named, listed.some⟩
  next =>
    rw [isDirectory_of_file file] at found
    obtain rfl : names = [name] := by
      simpa [input, Path.below, Path.append, Path.name] using found
    simpa using named

theorem Stands.listing_nodup (stands : scope.Stands files home) :
    (scope.listing files).1.Nodup := by
  unfold listing
  split
  next =>
    exact searchFrom_nodup stands.site.rooted.once _ (apart_children stands.site.rooted.once [])
  next => simp

theorem alike_of_reaches (stands : scope.Stands files home)
    (reaches : Reaches (home ++ [scope.settings.outRoot]) files writes after) :
    Alike [home ++ [scope.settings.outRoot]] scope.root home files after :=
  ⟨reaches.elsewhere, stands.site.leads, (stands.site.reaches reaches).leads⟩

theorem seen_place {outRoot : String} :
    seen [home ++ [outRoot]] home names = false ↔ ∃ rest, names = outRoot :: rest := by
  simp only [seen, Bool.not_eq_false', covers_iff, List.mem_singleton, exists_eq_left]
  constructor
  next =>
    rintro ⟨rest, whole⟩
    rw [List.append_assoc, List.append_cancel_left_eq] at whole
    exact ⟨rest, whole.symm⟩
  next =>
    rintro ⟨rest, rfl⟩
    exact ⟨rest, by simp⟩

theorem skips_outRoot (settings : Settings) : settings.skips settings.outRoot = true := by
  simp [Settings.skips]

theorem closed_place (scope : Scope) (files : FileSystem) (home : Location) :
    scope.Closed files home [home ++ [scope.settings.outRoot]] := by
  intro names _ hidden
  obtain ⟨rest, rfl⟩ := seen_place.mp hidden
  refine .inl ?_
  rw [visit_below, if_pos]
  simp [skips_outRoot]

theorem taken_seen (home : Location) (taken : scope.visit files (scope.root.below names) = .ok .take) :
    seen [home ++ [scope.settings.outRoot]] home names = true := by
  by_contra hidden
  obtain ⟨rest, rfl⟩ := seen_place.mp (by simpa using hidden)
  rw [visit_below, if_pos (by simp [skips_outRoot])] at taken
  simp at taken

theorem filter_found (stands : scope.Stands files home) (steps : Nat)
    {pending : List (List String)} (listed : ∀ names ∈ pending, Listed files home names) :
    (scope.searchFrom files steps pending).1.filter
        (seen [home ++ [scope.settings.outRoot]] home) = (scope.searchFrom files steps pending).1 :=
  List.filter_eq_self.mpr fun names found =>
    taken_seen home (searchFrom_found stands.site.rooted stands.site.leads steps listed names found).2

theorem outline_look_file {path : Path} {bytes : ByteArray}
    (found : files.outline.look path = .ok (some (.file bytes))) :
    ∃ held, files.look path = .ok (some (.file held)) := by
  rw [look_outline] at found
  cases looked : files.look path with
  | error fault => simp [looked, Except.map] at found
  | ok entry =>
      cases entry with
      | none => simp [looked, Except.map] at found
      | some kind => cases kind <;> simp_all [Except.map, FileEntry.blank]

theorem Stands.look_reaches (stands : scope.Stands files home)
    (reaches : Reaches (home ++ [scope.settings.outRoot]) files writes after) :
    after.outline.look scope.input = files.outline.look scope.input := by
  rcases stands.input with input | ⟨name, bytes, -, -, leads, found⟩
  next =>
    have site := stands.site.reaches reaches
    rw [look_outline, look_outline, input,
      look_directory.mpr ⟨home, stands.site.leads, stands.site.directory⟩,
      look_directory.mpr ⟨home, site.leads, site.directory⟩]
  next =>
    obtain ⟨location, same, -, present⟩ := look_file found
    obtain rfl := Except.ok.inj (leads.symm.trans same)
    have before : files.outline.at? (home ++ [name]) = some (.file ⟨#[]⟩) := by
      rw [at?_outline, present]
      rfl
    have leadsAfter := locate_keeps reaches.keeps leads
    refine look_congr (by rw [locate_outline, locate_outline, leadsAfter, leads]) fun other way => ?_
    rw [locate_outline, leads] at way
    obtain rfl := Except.ok.inj way
    rw [before, reaches.kind before]

theorem Stands.isDirectory_reaches (stands : scope.Stands files home)
    (reaches : Reaches (home ++ [scope.settings.outRoot]) files writes after) :
    after.isDirectory scope.input = files.isDirectory scope.input := by
  have looked := stands.look_reaches reaches
  rw [← isDirectory_outline, ← @isDirectory_outline files, FileSystem.isDirectory, looked]
  rfl

theorem Stands.reaches (stands : scope.Stands files home)
    (reaches : Reaches (home ++ [scope.settings.outRoot]) files writes after) :
    scope.Stands after home where
  site := stands.site.reaches reaches
  input := by
    rcases stands.input with input | ⟨name, bytes, named, input, leads, found⟩
    next => exact .inl input
    next =>
      have looked := (stands.look_reaches reaches).trans ((look_outline _).trans (by rw [found]))
      obtain ⟨held, file⟩ := outline_look_file looked
      exact .inr ⟨name, held, named, input, locate_keeps reaches.keeps leads, file⟩

theorem Stands.listing_reaches (stands : scope.Stands files home)
    (reaches : Reaches (home ++ [scope.settings.outRoot]) files writes after) :
    scope.listing after = scope.listing files := by
  have standsAfter := stands.reaches reaches
  have alike := alike_of_reaches stands reaches
  unfold listing
  rcases stands.input with input | ⟨name, bytes, -, -, -, found⟩
  next =>
    rw [stands.isDirectory input, standsAfter.isDirectory input]
    have home_open : seen [home ++ [scope.settings.outRoot]] home [] = true := by
      by_contra hidden
      obtain ⟨rest, same⟩ := seen_place.mp (by simpa using hidden)
      simp at same
    have same := searchFrom_alike alike stands.site.rooted standsAfter.site.rooted
      (closed_place scope files home) (closed_place scope after home)
      stands.underway standsAfter.underway
      (children_alike alike (by simp [Ahead]) home_open)
    rw [filter_found stands _ stands.listed_children,
      filter_found standsAfter _ standsAfter.listed_children] at same
    exact Prod.ext same.1 same.2
  next =>
    rw [stands.isDirectory_reaches reaches, isDirectory_of_file found]

theorem Stands.read_reaches (stands : scope.Stands files home)
    (closed : files.volume.Sealed (home ++ [scope.settings.outRoot]))
    (reaches : Reaches (home ++ [scope.settings.outRoot]) files writes after) :
    ∀ names ∈ (scope.listing files).1,
      after.read (scope.root.below names) = files.read (scope.root.below names) := by
  intro names member
  unfold listing at member
  rcases stands.input with input | ⟨name, bytes, named, input, leads, found⟩
  next =>
    rw [stands.isDirectory input] at member
    obtain ⟨listed, taken⟩ := searchFrom_found stands.site.rooted stands.site.leads _
      stands.listed_children names member
    have open_ : covers [home ++ [scope.settings.outRoot]] (home ++ names) = false := by
      simpa [seen] using taken_seen home taken
    refine read_congr reaches.keeps.volume
      ((alike_of_reaches stands reaches).locate listed.ahead open_) fun location way => ?_
    obtain rfl := location_below stands.site.leads listed.ahead way
    refine reaches.spared (closed.spares fun within => ?_)
    rw [covers_iff.mpr ⟨_, by simp, within⟩] at open_
    exact Bool.noConfusion open_
  next =>
    rw [isDirectory_of_file found] at member
    obtain rfl : names = [name] := by
      simpa [input, Path.below, Path.append, Path.name] using member
    obtain ⟨location, same, free, present⟩ := look_file found
    obtain rfl := Except.ok.inj (leads.symm.trans same)
    -- The file itself may have the name of the output directory.
    by_cases place : name = scope.settings.outRoot
    next =>
      subst place
      rw [reaches.idle stands.site.rooted ⟨free, by simp [present]⟩]
    next =>
      rw [← input]
      refine read_congr reaches.keeps.volume
        ((locate_keeps reaches.keeps leads).trans leads.symm) fun other way => ?_
      obtain rfl := Except.ok.inj (leads.symm.trans way)
      refine reaches.spared (closed.spares fun within => place ?_)
      have whole := within.eq_of_length (by simp)
      simpa using (List.append_cancel_left whole).symm

end Scope

end ScriptTyping
