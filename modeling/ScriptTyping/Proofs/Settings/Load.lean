import ScriptTyping.Proofs.Discovery.Listing
import ScriptTyping.Settings.Load

set_option autoImplicit false

namespace ScriptTyping

open FileSystem

namespace Checked

variable {α β : Type} {fields : Entries} {name : String}

theorem both_ok {first : Checked α} {second : Checked β} {one : α} {other : β} :
    both first second = .ok (one, other) ↔ first = .ok one ∧ second = .ok other := by
  cases first <;> cases second <;> simp [both]

theorem field_ok {default found : α} {check : Value → Checked α}
    (checked : field fields name default check = .ok found) :
    found = default ∨ ∃ value, check value = .ok found := by
  unfold field at checked
  split at checked
  next value _ => exact .inr ⟨value, checked⟩
  next => exact .inl (Except.ok.inj checked).symm

end Checked

theorem mapError_ok {ε δ α : Type} {result : Except ε α} {change : ε → δ} {found : α} :
    result.mapError change = .ok found ↔ result = .ok found := by
  cases result <;> simp [Except.mapError]

namespace Settings

variable {settings : Settings} {files after : FileSystem} {home here location : Location}
  {writes : List (Location × ByteArray)}

theorem isName_of_plainName {given name : String} (plain : plainName given = .ok name) :
    IsName name := by
  simp only [plainName] at plain
  split at plain
  next => simp at plain
  next allowed =>
    obtain rfl := Except.ok.inj plain
    simp only [Bool.or_eq_true, not_or, List.contains_iff_mem, beq_iff_eq] at allowed
    exact ⟨allowed.2, allowed.1.1.1.2⟩

theorem isName_of_checkOutRoot {value : Value} {name : String}
    (checked : checkOutRoot value = .ok name) : IsName name := by
  unfold checkOutRoot at checked
  split at checked
  next given _ => exact isName_of_plainName checked
  next => simp at checked

theorem checked_of_valid {fields : Entries} (valid : ofFields fields = .ok settings) :
    Checked.field fields "out_root" defaultOutRoot (Checked.one "out_root" checkOutRoot) =
        .ok settings.outRoot ∧
      (Checked.field fields "source_extensions" defaultExtensions fun value =>
        (Checked.listOf "source_extensions" Value.toText value).map (List.map normalExtension)) =
          .ok settings.extensions := by
  simp only [ofFields] at valid
  cases all : Checked.both (Checked.field fields "out_root" defaultOutRoot
      (Checked.one "out_root" checkOutRoot))
    (Checked.both (Checked.field fields "skip_dirs" defaultSkipDirs
      (Checked.listOf "skip_dirs" Value.toText))
    (Checked.both (Checked.field fields "source_extensions" defaultExtensions fun value =>
      (Checked.listOf "source_extensions" Value.toText value).map (List.map normalExtension))
      (Checked.field fields "trace" false (Checked.one "trace" Value.toBool)))) with
  | error issues =>
      rw [all] at valid
      cases valid
  | ok checked =>
      obtain ⟨outRoot, others⟩ := checked
      rw [all] at valid
      obtain rfl := Except.ok.inj valid
      obtain ⟨first, rest⟩ := Checked.both_ok.mp all
      exact ⟨first, (Checked.both_ok.mp (Checked.both_ok.mp rest).2).1⟩

theorem isName_outRoot {fields : Entries} (valid : ofFields fields = .ok settings) :
    IsName settings.outRoot := by
  rcases Checked.field_ok (checked_of_valid valid).1 with default | ⟨value, checked⟩
  next =>
    rw [default]
    decide
  next => exact isName_of_checkOutRoot (mapError_ok.mp checked)

theorem length_lowerFrom (chars passed : List Char) (written : Array Char) :
    chars.length + written.size ≤ (lowerFrom chars passed written).size := by
  induction chars generalizing passed written with
  | nil => simp [lowerFrom]
  | cons c rest ih =>
      have grown {more : Array Char} (larger : written.size < more.size) :
          (c :: rest).length + written.size ≤ (lowerFrom rest (c :: passed) more).size := by
        have later := ih (c :: passed) more
        rw [List.length_cons]
        omega
      rw [lowerFrom]
      split
      next => exact grown (by simp)
      next =>
        split
        next => exact grown (by rw [Array.size_push, Array.size_push]; omega)
        next => exact grown (by simp)

theorem lowerChar_eq_self {c : Char} (small : c.toNat < 0x41 ∨ 0x5B ≤ c.toNat ∧ c.toNat < 0xC0) :
    lowerChar c = c := by
  have apart : ∀ range ∈ caseRanges.toList,
      (range.first = 0x41 ∧ range.last = 0x5A) ∨ 0xC0 ≤ range.first := by
    decide +kernel
  have uncovered : caseRanges.find? (fun range => range.covers c.toNat) = none := by
    refine Array.find?_eq_none.mpr fun range member covers => ?_
    simp only [CaseRange.covers, Bool.and_eq_true, decide_eq_true_eq] at covers
    rcases apart range member.val with ⟨first, last⟩ | beyond <;> omega
  unfold lowerChar
  simp only [uncovered]

-- What is neither a capital letter of the basic alphabet nor beyond it is lowered already.
theorem lower_eq_self {text : String}
    (small : ∀ c ∈ text.toList, c.toNat < 0x41 ∨ 0x5B ≤ c.toNat ∧ c.toNat < 0xC0) :
    lower text = text := by
  have kept (chars passed : List Char) (written : Array Char)
      (small : ∀ c ∈ chars, c.toNat < 0x41 ∨ 0x5B ≤ c.toNat ∧ c.toNat < 0xC0) :
      (lowerFrom chars passed written).toList = written.toList ++ chars := by
    induction chars generalizing passed written with
    | nil => simp [lowerFrom]
    | cons c rest ih =>
        have here := small c List.mem_cons_self
        have sigma : c ≠ 'Σ' := by
          rintro rfl
          simp at here
        have dotted : c ≠ 'İ' := by
          rintro rfl
          simp at here
        rw [lowerFrom, if_neg sigma, if_neg dotted, lowerChar_eq_self here,
          ih _ _ fun other member => small other (List.mem_cons_of_mem _ member)]
        simp
  rw [lower, kept text.toList [] #[] small]
  exact String.ofList_toList

theorem lower_default {extension : String} (member : extension ∈ defaultExtensions) :
    lower extension = extension := by
  refine lower_eq_self ?_
  simp only [defaultExtensions, List.mem_cons, List.not_mem_nil, or_false] at member
  rcases member with rfl | rfl | rfl | rfl <;> simp

theorem normalExtension_ne_empty (extension : String) : normalExtension extension ≠ "" := by
  unfold normalExtension
  split
  next rest dotted =>
    intro empty
    have long := length_lowerFrom extension.toList [] #[]
    have none : (lowerFrom extension.toList [] #[]).size = 0 := by
      simpa [lower] using congrArg (fun text => text.toList.length) empty
    rw [none, dotted] at long
    simp at long
  next => simp

theorem extension_ne_empty {fields : Entries} (valid : ofFields fields = .ok settings) :
    "" ∉ settings.extensions := by
  rcases Checked.field_ok (checked_of_valid valid).2 with default | ⟨value, checked⟩
  next =>
    rw [default]
    decide
  next =>
    cases listed : Checked.listOf "source_extensions" Value.toText value with
    | error issues =>
        rw [listed] at checked
        cases checked
    | ok found =>
        rw [listed] at checked
        rw [← Except.ok.inj checked]
        intro empty
        obtain ⟨extension, -, same⟩ := List.mem_map.mp empty
        exact normalExtension_ne_empty extension same

theorem isName_outRoot_of_load {start : Path} {overrides : Overrides}
    (loaded : load files start overrides = .ok settings) : IsName settings.outRoot := by
  unfold load at loaded
  cases found : findSection files start with
  | error fault => simp [found, bind, Except.bind] at loaded
  | ok fields =>
      simp only [found, bind, Except.bind, ofSection] at loaded
      split at loaded
      next => simp at loaded
      next =>
        split at loaded
        next => simp at loaded
        next => exact isName_outRoot (mapError_ok.mp loaded)

theorem ahead_of_directory (rooted : files.Rooted) (directory : files.isDirectoryAt here = true) :
    Ahead here := by
  induction here using List.reverseRecOn with
  | nil => simp [Ahead]
  | append_singleton above name ih =>
      have rest := ih (by simpa using rooted.directory_dropLast directory)
      intro part member
      rcases List.mem_append.mp member with old | new
      next => exact rest part old
      next =>
        obtain rfl := List.mem_singleton.mp new
        by_cases present : above ++ [part] ∈ files.locations
        next => exact (rooted.named present).ahead
        next => simp [isDirectoryAt, at?_eq_none.mpr present] at directory

theorem follow_same (keeps : Keeps files after) {names : List String} (ahead : Ahead names)
    (directories : ∀ count < names.length,
      files.isDirectoryAt (here ++ names.take count) = true) :
    after.follow here names = files.follow here names := by
  induction names generalizing here with
  | nil => rfl
  | cons name rest ih =>
      have first : files.isDirectoryAt here = true := by simpa using directories 0 (by simp)
      have onward : name ≠ ".." := ahead name (by simp)
      have later : after.follow (here ++ [name]) rest = files.follow (here ++ [name]) rest := by
        refine ih ahead.tail fun count fewer => ?_
        simpa using directories (count + 1) (by simpa using fewer)
      simp only [follow, first, keeps.directory here first, beq_iff_eq, onward, if_false, later,
        Bool.not_true, Bool.false_eq_true]

theorem locate_pathTo_child (rooted : files.Rooted) (directory : files.isDirectoryAt here = true)
    (keeps : Keeps files after) {name : String} (isName : IsName name) :
    after.locate ((pathTo here).child name) = files.locate ((pathTo here).child name) ∧
      ∀ location, files.locate ((pathTo here).child name) = .ok location →
        location = here ++ [name] := by
  have start (files : FileSystem) : files.startOf ((pathTo here).child name) = [] := rfl
  have ahead : Ahead (here ++ [name]) := by
    intro part member
    rcases List.mem_append.mp member with old | new
    next => exact ahead_of_directory rooted directory part old
    next => exact List.mem_singleton.mp new ▸ isName.ahead
  have way : after.follow [] (here ++ [name]) = files.follow [] (here ++ [name]) := by
    refine follow_same keeps ahead fun count fewer => rooted.directory_prefix directory ?_
    rw [List.nil_append, List.take_append_of_le_length (by simpa using Nat.le_of_lt_succ (by simpa using fewer))]
    exact List.take_prefix ..
  constructor
  next =>
    unfold locate
    split
    next => rfl
    next =>
      split
      next => rfl
      next => rw [start, start]; exact way
  next =>
    intro location leads
    obtain ⟨-, -, found⟩ := locate_ok.mp leads
    rw [start] at found
    simpa using follow_ahead ahead found

theorem at?_or_directory {outRoot : String} {root : Path} (site : Site files root home outRoot)
    (closed : files.volume.Sealed (home ++ [outRoot]))
    (reaches : Reaches (home ++ [outRoot]) files writes after)
    (outside : ∀ names, names ≠ [] → location ≠ home ++ [outRoot] ++ names) :
    after.at? location = files.at? location ∨
      files.at? location = none ∧ after.at? location = some .directory := by
  by_cases place : location = home ++ [outRoot]
  next =>
    subst place
    cases found : files.at? (home ++ [outRoot]) with
    | none =>
        have unwritten : lastWrite files.volume writes (home ++ [outRoot]) = none := by
          refine lastWrite_eq_none.mpr fun entry member => ?_
          obtain ⟨names, some, below⟩ := reaches.below_of_mem member
          by_contra named
          have held := site.rooted.at?_of_same (by simpa using named)
          rcases Volume.same_iff.mp (by simpa using named) with same | shared
          next => exact outside names some (same.symm.trans below)
          next =>
            obtain ⟨bytes, -, other⟩ := site.rooted.shared _ _ shared
            simp [found] at other
        simpa [found] using (site.stored reaches).kept _ unwritten
    | some entry =>
        refine .inl ?_
        by_cases directory : entry = .directory
        next =>
          have before : files.outline.at? (home ++ [outRoot]) = some .directory := by
            rw [at?_outline, found, directory]
            rfl
          have stays := reaches.kind before
          rw [at?_outline] at stays
          cases held : after.at? (home ++ [outRoot]) with
          | none => simp [held] at stays
          | some other => cases other <;> simp_all [FileEntry.blank]
        next =>
          have free : files.isDirectoryAt (home ++ [outRoot]) = false := by
            cases entry <;> simp_all [isDirectoryAt]
          rw [reaches.idle site.rooted ⟨free, by simp [found]⟩, found]
  next =>
    refine .inl (reaches.spared (closed.spares fun within => ?_))
    obtain ⟨names, rfl⟩ := within
    by_cases last : names = []
    next => exact place (by simp [last])
    next => exact outside names last rfl

theorem fileIn_reaches {outRoot : String} {root : Path} (site : Site files root home outRoot)
    (closed : files.volume.Sealed (home ++ [outRoot]))
    (directory : files.isDirectoryAt here = true) (short : here.length ≤ home.length)
    (reaches : Reaches (home ++ [outRoot]) files writes after) :
    fileIn after here = fileIn files here := by
  have isName : IsName fileName := by decide
  obtain ⟨same, only⟩ := locate_pathTo_child site.rooted directory reaches.keeps isName
  -- The settings file is too far up to be below the output directory.
  have outside (names : List String) (some : names ≠ []) :
      here ++ [fileName] ≠ home ++ [outRoot] ++ names := by
    intro equal
    have long := congrArg List.length equal
    have one := List.length_pos_of_ne_nil some
    simp only [List.length_append, List.length_singleton] at long
    omega
  rcases at?_or_directory site closed reaches outside with stays | ⟨empty, made⟩
  next =>
    have held (location : Location) (leads : files.locate ((pathTo here).child fileName) = .ok location) :
        after.at? location = files.at? location := only location leads ▸ stays
    simp only [fileIn, look_congr same held, read_congr reaches.keeps.volume same held]
  next =>
    have free : files.isDirectoryAt (here ++ [fileName]) = false := by simp [isDirectoryAt, empty]
    simp only [fileIn, look, same]
    cases leads : files.locate ((pathTo here).child fileName) with
    | error fault => cases fault <;> rfl
    | ok location =>
        obtain rfl := only location leads
        simp [free, empty, isDirectoryAt_of_at? made, bind, Except.bind, pure, Except.pure]

theorem nearestFile_reaches {outRoot : String} {root : Path} (site : Site files root home outRoot)
    (closed : files.volume.Sealed (home ++ [outRoot]))
    (reaches : Reaches (home ++ [outRoot]) files writes after) (above : Nat)
    (directory : files.isDirectoryAt here = true) (short : here.length ≤ home.length) :
    nearestFile after above here = nearestFile files above here := by
  induction above generalizing here with
  | zero => exact fileIn_reaches site closed directory short reaches
  | succ above ih =>
      have up := ih (site.rooted.directory_dropLast directory) (by
        rw [List.length_dropLast]
        omega)
      simp only [nearestFile, fileIn_reaches site closed directory short reaches, up]

theorem resolve_of_follow {parts : List String} (leads : files.follow here parts = .ok location) :
    resolve here parts = location := by
  induction parts generalizing here with
  | nil => simpa [follow, resolve] using leads
  | cons part rest ih =>
      simp only [follow] at leads
      simp only [resolve]
      split at leads
      next => simp at leads
      next =>
        split at leads
        next back =>
          rw [if_pos back]
          exact ih leads
        next onward =>
          rw [if_neg onward]
          split at leads
          next => simp at leads
          next => exact ih leads

theorem load_reaches {root : Path} {outRoot : String} (site : Site files root home outRoot)
    (closed : files.volume.Sealed (home ++ [outRoot]))
    (reaches : Reaches (home ++ [outRoot]) files writes after) (overrides : Overrides) :
    load after root overrides = load files root overrides := by
  obtain ⟨null, -, way⟩ := locate_ok.mp site.leads
  have start : resolvePath files root = .ok home := by
    unfold resolvePath
    rw [null]
    exact congrArg Except.ok (resolve_of_follow way)
  have startAfter : resolvePath after root = .ok home := by
    rw [← start, resolvePath, reaches.keeps.startOf]
    rfl
  have found : searchFile after root = searchFile files root := by
    unfold searchFile
    rw [start, startAfter]
    exact nearestFile_reaches site closed reaches _ site.directory (Nat.le_refl _)
  simp only [load, findSection, found]

end Settings

end ScriptTyping
