import ScriptTyping.Proofs.Discovery.Search

set_option autoImplicit false

namespace ScriptTyping

def Path.Fits (path : Path) : Prop := path.toText.utf8ByteSize ≤ FileSystem.pathLimit

instance (path : Path) : Decidable path.Fits := inferInstanceAs (Decidable (_ ≤ _))

namespace FileSystem

variable {files : FileSystem}

def Nameable (files : FileSystem) : Prop :=
  ∀ location ∈ files.locations, ∀ name ∈ location,
    '\x00' ∉ name.toList ∧ name.utf8ByteSize ≤ nameLimit

end FileSystem

namespace Scope

open FileSystem

variable {scope : Scope} {files : FileSystem} {home : Location} {base names : List String}
  {pending : List (List String)} {steps : Nat}

theorem Listed.directory_iff (listed : Listed files home names) :
    files.isDirectoryAt (home ++ names) = true ↔ files.at? (home ++ names) = Option.some .directory := by
  refine ⟨fun directory => ?_, isDirectoryAt_of_at?⟩
  have nonempty : home ++ names ≠ [] := by simp [listed.some]
  unfold isDirectoryAt at directory
  split at directory
  next found => exact found
  next => simp [nonempty] at directory

theorem Listed.above (rooted : files.Rooted) {more : List String} (nonempty : names ≠ [])
    (listed : Listed files home (names ++ more)) : Listed files home names := by
  have named : ∀ name ∈ names, IsName name :=
    fun name member => listed.named name (List.mem_append_left _ member)
  refine ⟨named, nonempty, ?_⟩
  by_cases last : more = []
  · simpa [last] using listed.present
  · have present := listed.present
    rw [← List.append_assoc] at present
    have directory := rooted.directory_of_below last present
    by_contra absent
    simp [isDirectoryAt, at?_eq_none.mpr absent, nonempty] at directory

theorem Listed.follow (rooted : files.Rooted) (nameable : files.Nameable)
    (listed : Listed files home names) : files.follow home names = .ok (home ++ names) := by
  have short : ∀ name ∈ names, name.utf8ByteSize ≤ nameLimit := fun name member =>
    (nameable _ listed.present name (List.mem_append_right _ member)).2
  obtain ⟨named, -, present⟩ := listed
  induction names generalizing home with
  | nil => simp [FileSystem.follow]
  | cons name rest ih =>
      have directory : files.isDirectoryAt home = true :=
        rooted.directory_of_below (by simp) present
      have onward : name ≠ ".." := (named name (by simp)).ahead
      have fits : ¬ name.utf8ByteSize > nameLimit := Nat.not_lt.mpr (short name (by simp))
      have later := ih (fun other member => short other (by simp [member]))
        (fun other member => named other (by simp [member])) (by rwa [List.append_cons] at present)
      simpa [FileSystem.follow, directory, onward, fits] using later

theorem Listed.locate (rooted : files.Rooted) (nameable : files.Nameable) {root : Path}
    (leads : files.locate root = .ok home) (listed : Listed files home names) :
    files.locate (root.below names) =
      if (root.below names).Fits then .ok (home ++ names) else .error .tooLong := by
  have free : (root.below names).hasNull = false := by
    obtain ⟨start, -⟩ := locate_ok.mp leads
    simp only [Path.hasNull, List.any_eq_false, Path.below, Path.append, List.mem_append] at start ⊢
    rintro part (old | new)
    · exact start part old
    · simpa using (nameable _ listed.present part (List.mem_append_right _ new)).1
  rw [locate_below leads, free, if_neg Bool.false_ne_true, listed.follow rooted nameable]
  by_cases fits : (root.below names).Fits
  · rw [if_neg (Nat.not_lt.mpr fits), if_pos fits]
  · rw [if_pos (Nat.not_le.mp fits), if_neg fits]

theorem Listed.look (rooted : files.Rooted) (nameable : files.Nameable) {root : Path}
    (leads : files.locate root = .ok home) (listed : Listed files home names) :
    files.look (root.below names) =
      if (root.below names).Fits then .ok (files.at? (home ++ names)) else .error .tooLong := by
  have way := listed.locate rooted nameable leads
  by_cases fits : (root.below names).Fits
  · rw [if_pos fits] at way ⊢
    rw [look_of_locate way]
    split
    next directory => rw [listed.directory_iff.mp directory]
    next => rfl
  · rw [if_neg fits] at way ⊢
    rw [FileSystem.look, way]

theorem Listed.alone (rooted : files.Rooted) {far : List String}
    (other : files.at? (home ++ names) ≠ Option.some .directory) (listed : Listed files home names)
    (below : Listed files home far) (within : names <+: far) : far = names := by
  obtain ⟨more, rfl⟩ := within
  by_contra longer
  have nonempty : more ≠ [] := by
    rintro rfl
    exact longer (List.append_nil _)
  have present := below.present
  rw [← List.append_assoc] at present
  exact other (listed.directory_iff.mp (rooted.directory_of_below nonempty present))

-- An entry below a directory, on the way to which nothing is left out. The directory itself stands
-- at some segments below the root.
def Met (scope : Scope) (files : FileSystem) (home : Location) (base names : List String) : Prop :=
  Listed files home names ∧ ∀ segment ∈ base ++ names, segment ∉ scope.settings.skipped

def Wanted (scope : Scope) (files : FileSystem) (home : Location) (base names : List String) :
    Prop :=
  scope.Met files home base names ∧ (∃ bytes, files.at? (home ++ names) = some (.file bytes)) ∧
    scope.settings.accepts (scope.input.below names) = true

theorem skips_iff (settings : Settings) (segment : String) :
    settings.skips segment = true ↔ segment ∈ settings.skipped := by
  simp [Settings.skips, Settings.skipped, List.mem_eraseDups]

theorem any_skips_iff (settings : Settings) (segments : List String) :
    segments.any settings.skips = false ↔ ∀ segment ∈ segments, segment ∉ settings.skipped := by
  simp [List.any_eq_false, skips_iff]

-- What a visit to an entry says about all that is met at the entry or below it.
def Seen (scope : Scope) (files : FileSystem) (home : Location) (names : List String) :
    Except SearchFault Visit → Prop
  | .error fault =>
      fault = .files .tooLong ∧ scope.Met files home [] names ∧ ¬ (scope.root.below names).Fits
  | .ok .pass =>
      ∀ far, scope.Met files home [] far → names <+: far →
        (scope.root.below far).Fits ∧ ¬ scope.Wanted files home [] far
  | .ok (.descend _) =>
      ∀ far, scope.Met files home [] far → names <+: far →
        ((scope.root.below far).Fits ∧ ¬ scope.Wanted files home [] far) ∨
          ∃ child ∈ scope.childrenOf files names, child <+: far
  | .ok .take =>
      scope.Wanted files home [] names ∧ (scope.root.below names).Fits ∧
        ∀ far, scope.Met files home [] far → names <+: far → far = names

theorem seen_left (left : names.any scope.settings.skips = true) :
    scope.Seen files home names (.ok .pass) := by
  intro far met within
  obtain ⟨segment, member, skipped⟩ := List.any_eq_true.mp left
  exact absurd ((skips_iff ..).mp skipped) (met.2 segment (within.subset member))

theorem not_wanted_of_at? {entry : FileEntry} (found : files.at? (home ++ names) = some entry)
    (other : ∀ bytes, entry ≠ .file bytes) : ¬ scope.Wanted files home base names := by
  rintro ⟨-, ⟨bytes, file⟩, -⟩
  exact other bytes (Option.some.inj (found.symm.trans file))

section Search

variable (rooted : files.Rooted) (nameable : files.Nameable) (input : scope.input = scope.root)
  (leads : files.locate scope.root = .ok home)

include rooted in
theorem below_children (way : files.locate (scope.root.below names) = .ok (home ++ names)) {far : List String}
    (below : Listed files home far) (within : names <+: far) (different : far ≠ names) :
    ∃ child ∈ scope.childrenOf files names, child <+: far := by
  obtain ⟨more, rfl⟩ := within
  cases more with
  | nil => exact absurd (List.append_nil _) different
  | cons name rest =>
      rw [List.append_cons] at below ⊢
      have present := (below.above rooted (by simp)).present
      rw [← List.append_assoc] at present
      exact ⟨names ++ [name], List.mem_map_of_mem ((mem_list way).mpr present), List.prefix_append ..⟩

include rooted in
theorem seen_directory (way : files.locate (scope.root.below names) = .ok (home ++ names))
    (fits : (scope.root.below names).Fits)
    (found : files.at? (home ++ names) = some .directory) (entries : List Path) :
    scope.Seen files home names (.ok (.descend entries)) := by
  intro far met within
  by_cases same : far = names
  · subst same
    exact .inl ⟨fits, not_wanted_of_at? found (by simp)⟩
  · exact .inr (below_children rooted way met.1 within same)

include rooted in
theorem seen_passed {entry : FileEntry} (listed : Listed files home names)
    (fits : (scope.root.below names).Fits) (found : files.at? (home ++ names) = some entry)
    (other : entry ≠ .directory) (unwanted : ¬ scope.Wanted files home [] names) :
    scope.Seen files home names (.ok .pass) := by
  intro far met within
  obtain rfl := listed.alone rooted (by rwa [found, Ne, Option.some.injEq]) met.1 within
  exact ⟨fits, unwanted⟩

include rooted in
theorem seen_taken {bytes : ByteArray} (wanted : scope.Wanted files home [] names)
    (fits : (scope.root.below names).Fits)
    (found : files.at? (home ++ names) = some (.file bytes)) :
    scope.Seen files home names (.ok .take) :=
  ⟨wanted, fits, fun _ met within =>
    wanted.1.1.alone rooted (by simp [found]) met.1 within⟩

include rooted nameable input leads in
theorem seen_visit (listed : Listed files home names) :
    scope.Seen files home names (scope.visit files (scope.root.below names)) := by
  rw [visit_below]
  by_cases left : names.any scope.settings.skips = true
  · rw [if_pos left]
    exact seen_left left
  have kept := (any_skips_iff scope.settings names).mp (by simpa using left)
  have met : scope.Met files home [] names := ⟨listed, kept⟩
  have way := listed.locate rooted nameable leads
  have looked := listed.look rooted nameable leads
  rw [if_neg left]
  by_cases fits : (scope.root.below names).Fits
  · rw [if_pos fits] at way looked
    rw [looked]
    cases found : files.at? (home ++ names) with
    | none => exact absurd listed.present (at?_eq_none.mp found)
    | some entry =>
        cases entry with
        | directory => exact seen_directory rooted way fits found _
        | special =>
            exact seen_passed rooted listed fits found (by simp) (not_wanted_of_at? found (by simp))
        | file bytes =>
            by_cases accepted : scope.settings.accepts (scope.root.below names) = true
            · simp only [accepted, if_true]
              exact seen_taken rooted ⟨met, ⟨bytes, found⟩, input ▸ accepted⟩ fits found
            · simp only [accepted, Bool.false_eq_true, if_false]
              exact seen_passed rooted listed fits found (by simp)
                fun wanted => accepted (input ▸ wanted.2.2)
  · rw [if_neg fits] at looked
    rw [looked]
    exact ⟨rfl, met, fits⟩

def Awaited (pending : List (List String)) (names : List String) : Prop :=
  ∃ above ∈ pending, above <+: names

theorem awaited_cons {first far : List String} :
    Awaited (first :: pending) far ↔ first <+: far ∨ Awaited pending far := by
  simp [Awaited]

theorem awaited_append {first : List (List String)} {far : List String} :
    Awaited (first ++ pending) far ↔ Awaited first far ∨ Awaited pending far := by
  simp [Awaited, or_and_right, exists_or]

-- A search without a fault has found what is wanted of all that was awaited. A fault comes from an
-- entry with a long path.
def Complete (scope : Scope) (files : FileSystem) (home : Location) (awaited : List String → Prop) :
    List (List String) × Option SearchFault → Prop
  | (found, none) =>
      ∀ far, scope.Met files home [] far → awaited far →
        (scope.root.below far).Fits ∧ (scope.Wanted files home [] far → far ∈ found)
  | (_, some fault) =>
      fault = .files .tooLong ∧ ∃ far, scope.Met files home [] far ∧ ¬ (scope.root.below far).Fits

section Steps

variable {found : List (List String)} {fault : Option SearchFault} {entries : List Path}

theorem complete_pass (seen : scope.Seen files home names (.ok .pass))
    (later : scope.Complete files home (Awaited pending) (found, fault)) :
    scope.Complete files home (Awaited (names :: pending)) (found, fault) := by
  cases fault with
  | some fault => exact later
  | none =>
      intro far met awaited
      rcases awaited_cons.mp awaited with here | rest
      · exact ⟨(seen far met here).1, fun wanted => absurd wanted (seen far met here).2⟩
      · exact later far met rest

theorem complete_descend (seen : scope.Seen files home names (.ok (.descend entries)))
    (later : scope.Complete files home (Awaited (scope.childrenOf files names ++ pending))
      (found, fault)) : scope.Complete files home (Awaited (names :: pending)) (found, fault) := by
  cases fault with
  | some fault => exact later
  | none =>
      intro far met awaited
      rcases awaited_cons.mp awaited with here | rest
      · rcases seen far met here with passed | inside
        · exact ⟨passed.1, fun wanted => absurd wanted passed.2⟩
        · exact later far met (awaited_append.mpr (.inl inside))
      · exact later far met (awaited_append.mpr (.inr rest))

theorem complete_take (seen : scope.Seen files home names (.ok .take))
    (later : scope.Complete files home (Awaited pending) (found, fault)) :
    scope.Complete files home (Awaited (names :: pending)) (names :: found, fault) := by
  cases fault with
  | some fault => exact later
  | none =>
      obtain ⟨-, fits, alone⟩ := seen
      intro far met awaited
      rcases awaited_cons.mp awaited with here | rest
      · obtain rfl := alone far met here
        exact ⟨fits, fun _ => List.mem_cons_self ..⟩
      · obtain ⟨short, inside⟩ := later far met rest
        exact ⟨short, fun wanted => List.mem_cons_of_mem _ (inside wanted)⟩

end Steps

include rooted nameable input leads in
theorem searchFrom_complete (underway : Underway files home steps pending) :
    scope.Complete files home (Awaited pending) (scope.searchFrom files steps pending) := by
  induction steps generalizing pending with
  | zero =>
      cases pending with
      | nil => simp [searchFrom, Complete, Awaited]
      | cons names rest =>
          obtain ⟨fewer, none, -⟩ := underway.step
          cases none
  | succ steps ih =>
      cases pending with
      | nil => simp [searchFrom, Complete, Awaited]
      | cons names rest =>
          have seen := seen_visit rooted nameable input leads underway.head
          obtain ⟨fewer, same, later⟩ := underway.step
          obtain rfl := Nat.succ.inj same
          rw [searchFrom]
          cases visited : scope.visit files (scope.root.below names) with
          | error fault =>
              rw [visited] at seen
              exact ⟨seen.1, names, seen.2⟩
          | ok visit =>
              rw [visited] at seen
              cases visit with
              | pass => exact complete_pass seen (ih later)
              | descend entries => exact complete_descend seen (ih (underway.descend rooted leads))
              | take => exact complete_take seen (ih later)

include rooted nameable input leads in
theorem wanted_of_found (listed : ∀ names ∈ pending, Listed files home names) :
    ∀ names ∈ (scope.searchFrom files steps pending).1, scope.Wanted files home [] names := by
  intro names found
  obtain ⟨here, taken⟩ := searchFrom_found rooted leads steps listed names found
  have seen := seen_visit rooted nameable input leads here
  rw [taken] at seen
  exact seen.1

end Search

end Scope

end ScriptTyping
