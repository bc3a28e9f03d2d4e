import ScriptTyping.Proofs.Settings.Load
import ScriptTyping.Proofs.Text.Boundary

set_option autoImplicit false

namespace ScriptTyping

namespace Checked

variable {α β : Type} {fields : Entries} {name other : String}

def issues : Checked α → List Issue
  | .ok _ => []
  | .error found => found

@[simp]
theorem issues_both (first : Checked α) (second : Checked β) :
    issues (both first second) = issues first ++ issues second := by
  cases first <;> cases second <;> simp [both, issues]

@[simp]
theorem issues_map (change : α → β) (checked : Checked α) :
    issues (Except.map change checked) = issues checked := by
  cases checked <;> rfl

def Blames (checked : Checked α) (name : String) : Prop :=
  ∃ issue ∈ issues checked, issue.field = name

def BlamesOnly (name : String) (checked : Checked α) : Prop :=
  ∀ issue ∈ issues checked, issue.field = name

theorem blamesOnly_one (name : String) (check : Value → Except ValueProblem α) (value : Value) :
    BlamesOnly name (one name check value) := by
  unfold one
  cases check value <;> simp [Except.mapError, BlamesOnly, issues]

theorem blamesOnly_items (name : String) (check : Value → Except ValueProblem α) (index : Nat)
    (values : List Value) : BlamesOnly name (items name check index values) := by
  induction values generalizing index with
  | nil => simp [items, BlamesOnly, issues]
  | cons value rest ih =>
      intro issue member
      rw [items, issues_map, issues_both, List.mem_append] at member
      rcases member with here | later
      · cases checked : check value with
        | ok item => simp [checked, Except.mapError, issues] at here
        | error problem =>
            obtain rfl : issue = ⟨name, some index, problem⟩ := by
              simpa [checked, Except.mapError, issues] using here
            rfl
      · exact ih (index + 1) issue later

theorem blamesOnly_listOf (name : String) (check : Value → Except ValueProblem α) (value : Value) :
    BlamesOnly name (listOf name check value) := by
  cases value with
  | list values => exact blamesOnly_items name check 0 values
  | _ => simp [listOf, BlamesOnly, issues]

theorem blamesOnly_field {default : α} {check : Value → Checked α}
    (only : ∀ value, BlamesOnly name (check value)) :
    BlamesOnly name (field fields name default check) := by
  unfold field
  split
  · exact only _
  · simp [BlamesOnly, issues]

theorem BlamesOnly.not_blames {checked : Checked α} (only : BlamesOnly name checked)
    (apart : name ≠ other) : ¬ Blames checked other := by
  rintro ⟨issue, member, rfl⟩
  exact apart (only issue member).symm

theorem field_eq_check {default : α} {check : Value → Checked α} {value : Value}
    (passes : check value = .ok default) :
    field fields name default check = check ((fields.get? name).getD value) := by
  unfold field
  cases fields.get? name with
  | none => exact passes.symm
  | some value => rfl

theorem items_toText (name : String) (index : Nat) (texts : List String) :
    items name Value.toText index (texts.map .text) = .ok texts := by
  induction texts generalizing index with
  | nil => rfl
  | cons text rest ih => simp [items, ih, Value.toText, Except.mapError, both, Except.map]

end Checked

namespace Settings

open Checked

variable {files : FileSystem} {start : Path} {fields : Entries} {key : String} {value : Value}
  {skipDirs extensions : List Value}

def checkSkipDirs : Value → Checked (List String) := Checked.listOf "skip_dirs" Value.toText

def checkExtensions (value : Value) : Checked (List String) :=
  (Checked.listOf "source_extensions" Value.toText value).map (List.map normalExtension)

theorem blamesOnly_extensions (value : Value) :
    BlamesOnly "source_extensions" (checkExtensions value) := by
  intro issue member
  rw [checkExtensions, issues_map] at member
  exact blamesOnly_listOf _ _ _ issue member

theorem blames_ofFields (fields : Entries) (name : String) :
    Blames (ofFields fields) name ↔
      Blames (field fields "out_root" defaultOutRoot (one "out_root" checkOutRoot)) name ∨
        Blames (field fields "skip_dirs" defaultSkipDirs checkSkipDirs) name ∨
          Blames (field fields "source_extensions" defaultExtensions checkExtensions) name ∨
            Blames (field fields "trace" false (one "trace" Value.toBool)) name := by
  unfold Blames
  rw [ofFields, issues_map, issues_both, issues_both, issues_both]
  simp only [List.mem_append, or_and_right, exists_or]
  rfl

theorem blames_skipDirs (fields : Entries) :
    Blames (ofFields fields) "skip_dirs" ↔
      Blames (field fields "skip_dirs" defaultSkipDirs checkSkipDirs) "skip_dirs" := by
  rw [blames_ofFields]
  constructor
  · rintro (blamed | blamed | blamed | blamed)
    · exact absurd blamed ((blamesOnly_field (blamesOnly_one _ _)).not_blames (by decide))
    · exact blamed
    · exact absurd blamed ((blamesOnly_field blamesOnly_extensions).not_blames (by decide))
    · exact absurd blamed ((blamesOnly_field (blamesOnly_one _ _)).not_blames (by decide))
  · exact fun blamed => .inr (.inl blamed)

theorem blames_extensions (fields : Entries) :
    Blames (ofFields fields) "source_extensions" ↔
      Blames (field fields "source_extensions" defaultExtensions checkExtensions)
        "source_extensions" := by
  rw [blames_ofFields]
  constructor
  · rintro (blamed | blamed | blamed | blamed)
    · exact absurd blamed ((blamesOnly_field (blamesOnly_one _ _)).not_blames (by decide))
    · exact absurd blamed ((blamesOnly_field (blamesOnly_listOf _ _)).not_blames (by decide))
    · exact blamed
    · exact absurd blamed ((blamesOnly_field (blamesOnly_one _ _)).not_blames (by decide))
  · exact fun blamed => .inr (.inr (.inl blamed))

def listKeys : List String := ["skip_dirs", "source_extensions"]

-- The settings that are meant to be lists are lists, as far as they are given.
def Lists (fields : Entries) : Prop :=
  ∀ key ∈ listKeys, ∀ value, fields.get? key = some value → ∃ items, value = .list items

theorem blames_of_not_list (member : key ∈ listKeys) (given : fields.get? key = some value)
    (other : ∀ items, value ≠ .list items) : Blames (ofFields fields) key := by
  have wrong : Checked.listOf key Value.toText value = .error [⟨key, none, .notList⟩] := by
    cases value with
    | list items => exact absurd rfl (other items)
    | _ => rfl
  rcases (by simpa [listKeys] using member : key = "skip_dirs" ∨ key = "source_extensions") with
    rfl | rfl
  · rw [blames_skipDirs]
    exact ⟨⟨"skip_dirs", none, .notList⟩, by simp [field, given, checkSkipDirs, wrong, issues], rfl⟩
  · rw [blames_extensions]
    exact ⟨⟨"source_extensions", none, .notList⟩, by
      simp [field, given, checkExtensions, wrong, issues, Except.map], rfl⟩

def completed (fields : Entries) (skipDirs extensions : List Value) : Entries :=
  [("out_root", (fields.get? "out_root").getD (.text defaultOutRoot)),
   ("skip_dirs", .list skipDirs),
   ("source_extensions", .list extensions),
   ("trace", (fields.get? "trace").getD (.bool false))]

theorem ofSection_ok (skip : listSetting fields "skip_dirs" defaultSkipDirs = .ok skipDirs)
    (extend : listSetting fields "source_extensions" defaultExtensions = .ok extensions) :
    ofSection fields ⟨none, [], none⟩ =
      (ofFields (completed fields skipDirs extensions)).mapError .invalid := by
  simp only [ofSection, skip, extend]
  rfl

theorem listSetting_error {default : List String} {fault : LoadFault}
    (failed : listSetting fields key default = .error fault) : fault = .notListable := by
  unfold listSetting at failed
  split at failed
  next value _ => cases value <;> cases failed <;> rfl
  next => cases failed

-- A section is not checked at all if something in the place of a list cannot be made one.
theorem ofSection_cases (fields : Entries) :
    ofSection fields ⟨none, [], none⟩ = .error .notListable ∨
      ∃ skipDirs extensions, listSetting fields "skip_dirs" defaultSkipDirs = .ok skipDirs ∧
        listSetting fields "source_extensions" defaultExtensions = .ok extensions := by
  cases skip : listSetting fields "skip_dirs" defaultSkipDirs with
  | error fault =>
      refine .inl ?_
      rw [ofSection, skip, listSetting_error skip]
      rfl
  | ok skipDirs =>
      cases extend : listSetting fields "source_extensions" defaultExtensions with
      | error fault =>
          refine .inl ?_
          rw [ofSection, skip, extend, listSetting_error extend]
          rfl
      | ok extensions => exact .inr ⟨skipDirs, extensions, rfl, rfl⟩

theorem listSetting_of_list {default : List String} {items : List Value}
    (made : listSetting fields key default = .ok items)
    (list : ∀ value, fields.get? key = some value → ∃ items, value = .list items) :
    (fields.get? key).getD (.list (default.map .text)) = .list items := by
  unfold listSetting at made
  cases given : fields.get? key with
  | none =>
      rw [given] at made
      exact congrArg Value.list (Except.ok.inj made)
  | some value =>
      obtain ⟨found, rfl⟩ := list value given
      rw [given] at made
      exact congrArg Value.list (Except.ok.inj made)

theorem texts_of_listSetting {default : List String} {items : List Value}
    (made : listSetting fields key default = .ok items) (given : fields.get? key = some value)
    (other : ∀ items, value ≠ .list items) : ∃ texts : List String, items = texts.map .text := by
  rw [listSetting, given] at made
  cases value with
  | list items => exact absurd rfl (other items)
  | text text =>
      exact ⟨text.toList.map fun c => c.toString, by
        rw [← Except.ok.inj made, List.map_map]
        rfl⟩
  | table entries =>
      exact ⟨entries.map fun entry => entry.1, by
        rw [← Except.ok.inj made, List.map_map]
        rfl⟩
  | _ => cases made

theorem checkSkipDirs_default :
    checkSkipDirs (.list (defaultSkipDirs.map .text)) = .ok defaultSkipDirs :=
  items_toText "skip_dirs" 0 defaultSkipDirs

theorem checkExtensions_default :
    checkExtensions (.list (defaultExtensions.map .text)) = .ok defaultExtensions := by
  have normal : defaultExtensions.map normalExtension = defaultExtensions := by
    have each : ∀ extension ∈ defaultExtensions, lower extension = extension := fun _ => lower_default
    simpa [defaultExtensions, normalExtension] using each
  rw [checkExtensions, Checked.listOf, items_toText]
  exact congrArg Except.ok normal

theorem ofFields_completed
    (skip : (fields.get? "skip_dirs").getD (.list (defaultSkipDirs.map .text)) = .list skipDirs)
    (extend : (fields.get? "source_extensions").getD (.list (defaultExtensions.map .text)) =
      .list extensions) : ofFields (completed fields skipDirs extensions) = ofFields fields := by
  have outRoot : one "out_root" checkOutRoot (.text defaultOutRoot) = .ok defaultOutRoot := by
    decide +kernel
  have trace : one "trace" Value.toBool (.bool false) = .ok false := rfl
  have same : ofFields fields = Except.map
      (fun parts => ⟨parts.1, parts.2.1, parts.2.2.1, parts.2.2.2⟩)
      (both (field fields "out_root" defaultOutRoot (one "out_root" checkOutRoot))
        (both (field fields "skip_dirs" defaultSkipDirs checkSkipDirs)
          (both (field fields "source_extensions" defaultExtensions checkExtensions)
            (field fields "trace" false (one "trace" Value.toBool))))) := rfl
  rw [same, field_eq_check outRoot, field_eq_check checkSkipDirs_default,
    field_eq_check checkExtensions_default, field_eq_check trace, skip, extend]
  rfl

-- Loading and checking give the same settings, or find something wrong with the same fields.
def Agrees (loaded : Except LoadFault Settings) (checked : Checked Settings) : Prop :=
  ∃ other : Checked Settings, loaded = other.mapError .invalid ∧
    (∀ settings, other = .ok settings ↔ checked = .ok settings) ∧
    ∀ name, Blames other name ↔ Blames checked name

theorem load_of_section (found : findSection files start = .ok fields) (overrides : Overrides) :
    load files start overrides = ofSection fields overrides := by
  rw [load, found]
  rfl

theorem ofSection_of_lists (lists : Lists fields) :
    ofSection fields ⟨none, [], none⟩ = (ofFields fields).mapError .invalid := by
  have made {key : String} (member : key ∈ listKeys) (default : List String) :
      ∃ items, listSetting fields key default = .ok items := by
    unfold listSetting
    cases given : fields.get? key with
    | none => exact ⟨_, rfl⟩
    | some value =>
        obtain ⟨items, rfl⟩ := lists key member value given
        exact ⟨items, rfl⟩
  obtain ⟨skipDirs, skip⟩ := made (by decide : "skip_dirs" ∈ listKeys) defaultSkipDirs
  obtain ⟨extensions, extend⟩ :=
    made (by decide : "source_extensions" ∈ listKeys) defaultExtensions
  rw [ofSection_ok skip extend,
    ofFields_completed (listSetting_of_list skip (lists _ (by decide)))
      (listSetting_of_list extend (lists _ (by decide)))]

theorem mapError_invalid_inj {first second : Checked Settings}
    (same : first.mapError LoadFault.invalid = second.mapError LoadFault.invalid) :
    first = second := by
  cases first <;> cases second <;> simp_all [Except.mapError]

theorem lists_of_agrees (agrees : Agrees (ofSection fields ⟨none, [], none⟩) (ofFields fields)) :
    Lists fields := by
  obtain ⟨other, same, -, blamed⟩ := agrees
  intro key member value given
  by_contra none
  have apart : ∀ items, value ≠ .list items := fun items equal => none ⟨items, equal⟩
  have wrong := (blamed key).mpr (blames_of_not_list member given apart)
  rcases ofSection_cases fields with unlisted | ⟨skipDirs, extensions, skip, extend⟩
  · rw [unlisted] at same
    cases other <;> cases same
  · rw [ofSection_ok skip extend] at same
    obtain rfl := mapError_invalid_inj same
    rcases (by simpa [listKeys] using member : key = "skip_dirs" ∨ key = "source_extensions") with
      rfl | rfl
    · obtain ⟨texts, rfl⟩ := texts_of_listSetting skip given apart
      rw [blames_skipDirs] at wrong
      have passes : field (completed fields (texts.map .text) extensions) "skip_dirs" defaultSkipDirs
          checkSkipDirs = .ok texts := items_toText _ _ _
      simp [Blames, passes, issues] at wrong
    · obtain ⟨texts, rfl⟩ := texts_of_listSetting extend given apart
      rw [blames_extensions] at wrong
      have passes : field (completed fields skipDirs (texts.map .text)) "source_extensions"
          defaultExtensions checkExtensions = .ok (texts.map normalExtension) := by
        change checkExtensions (.list (texts.map .text)) = _
        rw [checkExtensions, Checked.listOf, items_toText]
        rfl
      simp [Blames, passes, issues] at wrong

/-- Loading without overrides agrees with checking the section as fields exactly when what is meant to
be a list is one. Then the settings and the issues are the same. -/
theorem load_agrees_iff (found : findSection files start = .ok fields) :
    (Agrees (load files start ⟨none, [], none⟩) (ofFields fields) ↔ Lists fields) ∧
      (Lists fields →
        load files start ⟨none, [], none⟩ = (ofFields fields).mapError .invalid) := by
  rw [load_of_section found]
  refine ⟨⟨lists_of_agrees, fun lists => ?_⟩, ofSection_of_lists⟩
  exact ⟨ofFields fields, ofSection_of_lists lists, fun _ => .rfl, fun _ => .rfl⟩

def configured (text : String) : FileSystem := { entries := [([fileName], .file text.toUTF8)] }

theorem findSection_configured (text : String) :
    findSection (configured text) ⟨"", []⟩ = section? text := by
  have nearest : searchFile (configured text) ⟨"", []⟩ = .ok (some text.toUTF8) := rfl
  simp only [findSection, nearest, Utf8.decode_toUTF8]

def holdsOne (key : String) (test : Value → Bool) : Except LoadFault Entries → Bool
  | .ok [(name, value)] => name == key && test value
  | _ => false

theorem eq_of_holdsOne {read : Except LoadFault Entries} {key : String} {test : Value → Bool}
    {value : Value} (only : ∀ other, test other = true → other = value)
    (holds : holdsOne key test read = true) : read = .ok [(key, value)] := by
  unfold holdsOne at holds
  split at holds
  next name found =>
    obtain ⟨rfl, passes⟩ : name = key ∧ test found = true := by simpa using holds
    rw [only found passes]
  next => cases holds

theorem eq_of_isText {text : String} {value : Value} (same : isText text value = true) :
    value = .text text := by
  cases value <;> simp_all [isText]

def isListed (text : String) : Value → Bool
  | .list [item] => isText text item
  | _ => false

theorem eq_of_isListed {text : String} {value : Value} (same : isListed text value = true) :
    value = .list [.text text] := by
  unfold isListed at same
  split at same
  next item => rw [eq_of_isText same]
  next => cases same

def skipping : String := "[tool.ts_converter]\nskip_dirs = [\"lib\"]\n"

theorem skipping_agrees :
    findSection (configured skipping) ⟨"", []⟩ = .ok [("skip_dirs", .list [.text "lib"])] ∧
      Lists [("skip_dirs", .list [.text "lib"])] ∧
      load (configured skipping) ⟨"", []⟩ ⟨none, [], none⟩ =
        .ok ⟨defaultOutRoot, ["lib"], defaultExtensions, false⟩ := by
  have found : findSection (configured skipping) ⟨"", []⟩ =
      .ok [("skip_dirs", .list [.text "lib"])] := by
    rw [findSection_configured]
    exact eq_of_holdsOne (fun _ => eq_of_isListed) (by decide +kernel)
  have lists : Lists [("skip_dirs", .list [.text "lib"])] := by
    simp [Lists, listKeys, Entries.get?]
  exact ⟨found, lists, ((load_agrees_iff found).2 lists).trans rfl⟩

def bareSkipping : String := "[tool.ts_converter]\nskip_dirs = \"lib\"\n"

-- Three directories are skipped that no one has named.
theorem load_disagrees :
    findSection (configured bareSkipping) ⟨"", []⟩ = .ok [("skip_dirs", .text "lib")] ∧
      load (configured bareSkipping) ⟨"", []⟩ ⟨none, [], none⟩ =
        .ok ⟨defaultOutRoot, ["l", "i", "b"], defaultExtensions, false⟩ ∧
      ofFields [("skip_dirs", .text "lib")] = .error [⟨"skip_dirs", none, .notList⟩] ∧
      ¬ Agrees (load (configured bareSkipping) ⟨"", []⟩ ⟨none, [], none⟩)
        (ofFields [("skip_dirs", .text "lib")]) := by
  have found : findSection (configured bareSkipping) ⟨"", []⟩ =
      .ok [("skip_dirs", .text "lib")] := by
    rw [findSection_configured]
    exact eq_of_holdsOne (fun _ => eq_of_isText) (by decide +kernel)
  refine ⟨found, ?_, rfl, fun agrees => ?_⟩
  · have skip : listSetting [("skip_dirs", .text "lib")] "skip_dirs" defaultSkipDirs =
        .ok [.text "l", .text "i", .text "b"] := rfl
    let letters : Entries := [("skip_dirs", .list [.text "l", .text "i", .text "b"])]
    have same : ofFields (completed letters [.text "l", .text "i", .text "b"]
        (defaultExtensions.map .text)) = ofFields letters := ofFields_completed rfl rfl
    rw [load_of_section found, ofSection_ok skip rfl]
    exact congrArg (Except.mapError LoadFault.invalid) same
  · rw [load_of_section found] at agrees
    obtain ⟨items, list⟩ :=
      lists_of_agrees agrees "skip_dirs" (by decide) (.text "lib") rfl
    cases list

end Settings

end ScriptTyping
