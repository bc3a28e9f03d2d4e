import Mathlib.Algebra.BigOperators.Group.List.Basic
import Mathlib.Algebra.GroupWithZero.Nat
import ScriptTyping.Discovery
import ScriptTyping.Proofs.FileSystem.Site

set_option autoImplicit false

namespace ScriptTyping.Scope

open FileSystem

variable {scope : Scope} {files first second : FileSystem} {home : Location}
  {names : List String} {cut : List Location} {pending : List (List String)}

def childrenOf (scope : Scope) (files : FileSystem) (names : List String) : List (List String) :=
  (files.list (scope.root.below names)).map fun name => names ++ [name]

-- The search by the names below the root: the sources that it finds, and the fault that ends it.
def searchFrom (scope : Scope) (files : FileSystem) :
    Nat → List (List String) → List (List String) × Option SearchFault
  | 0, _ => ([], none)
  | _ + 1, [] => ([], none)
  | steps + 1, names :: rest =>
      match scope.visit files (scope.root.below names) with
      | .error fault => ([], some fault)
      | .ok .pass => searchFrom scope files steps rest
      | .ok (.descend _) => searchFrom scope files steps (scope.childrenOf files names ++ rest)
      | .ok .take =>
          let more := searchFrom scope files steps rest
          (names :: more.1, more.2)

theorem entriesOf_below (scope : Scope) (files : FileSystem) (names : List String) :
    entriesOf files (scope.root.below names) =
      (scope.childrenOf files names).map scope.root.below := by
  simp only [entriesOf, childrenOf, List.map_map]
  exact List.map_congr_left fun name _ => Path.child_below ..

theorem visit_below (scope : Scope) (files : FileSystem) (names : List String) :
    scope.visit files (scope.root.below names) =
      if names.any scope.settings.skips then .ok .pass
      else
        match files.look (scope.root.below names) with
        | .error fault => .error (.files fault)
        | .ok (some .directory) =>
            .ok (.descend ((scope.childrenOf files names).map scope.root.below))
        | .ok (some (.file _)) =>
            .ok (if scope.settings.accepts (scope.root.below names) then .take else .pass)
        | .ok _ => .ok .pass := by
  simp only [visit, isSkipped?, Path.relativeTo?_below, Option.map_some, entriesOf_below]
  cases names.any scope.settings.skips <;> rfl

theorem visit_take {bytes : ByteArray} (kept : names.any scope.settings.skips = false)
    (found : files.look (scope.root.below names) = .ok (some (.file bytes)))
    (accepted : scope.settings.accepts (scope.root.below names) = true) :
    scope.visit files (scope.root.below names) = .ok .take := by
  simp [visit_below, kept, found, accepted]

theorem visit_descend {entries : List Path}
    (descends : scope.visit files (scope.root.below names) = .ok (.descend entries)) :
    entries = (scope.childrenOf files names).map scope.root.below := by
  rw [visit_below] at descends
  split at descends
  next => simp at descends
  next =>
    split at descends
    next => simp at descends
    next => simpa [eq_comm] using descends
    next => split at descends <;> simp at descends
    next => simp at descends

theorem sourcesFrom_eq (scope : Scope) (files : FileSystem) (steps : Nat)
    (pending : List (List String)) (found : Array Path) :
    scope.sourcesFrom files steps (pending.map scope.root.below) found =
      match scope.searchFrom files steps pending with
      | (more, none) => .ok (found ++ (more.map scope.root.below).toArray)
      | (_, some fault) => .error fault := by
  induction steps generalizing pending found with
  | zero => simp [sourcesFrom, searchFrom]
  | succ steps ih =>
      cases pending with
      | nil => simp [sourcesFrom, searchFrom]
      | cons names rest =>
          simp only [List.map_cons, sourcesFrom, searchFrom]
          cases visited : scope.visit files (scope.root.below names) with
          | error fault => rfl
          | ok visit =>
              cases visit with
              | pass => exact ih rest found
              | descend entries =>
                  simp only [visit_descend visited, ← List.map_append]
                  exact ih _ found
              | take =>
                  simp only [ih rest]
                  cases scope.searchFrom files steps rest with
                  | mk more fault => cases fault <;> simp

structure Listed (files : FileSystem) (home : Location) (names : List String) : Prop where
  named : ∀ name ∈ names, IsName name
  some : names ≠ []
  present : home ++ names ∈ files.locations

theorem Listed.ahead (listed : Listed files home names) : Ahead names :=
  ahead_of_named listed.named

theorem listed_of_child (rooted : files.Rooted) (leads : files.locate scope.root = .ok home)
    (named : ∀ name ∈ names, IsName name) {child : List String}
    (member : child ∈ scope.childrenOf files names) : Listed files home child := by
  obtain ⟨name, found, rfl⟩ := List.mem_map.mp member
  cases way : files.locate (scope.root.below names) with
  | error fault => simp [list, way] at found
  | ok location =>
      obtain rfl := location_below leads (ahead_of_named named) way
      have present := (mem_list way).mp found
      refine ⟨fun part inside => ?_, by simp, by simpa using present⟩
      rcases List.mem_append.mp inside with old | new
      next => exact named part old
      next =>
        obtain rfl : part = name := by simpa using new
        exact rooted.named present

theorem nodup_children (once : files.locations.Nodup) (names : List String) :
    (scope.childrenOf files names).Nodup :=
  (nodup_list once _).map fun _ _ same => by simpa using same

def weight (files : FileSystem) (home : Location) (names : List String) : Nat :=
  files.entries.countP fun entry => (home ++ names).isPrefixOf entry.1

def load (files : FileSystem) (home : Location) (pending : List (List String)) : Nat :=
  (pending.map (weight files home)).sum

theorem load_cons (names : List String) (rest : List (List String)) :
    load files home (names :: rest) = weight files home names + load files home rest := by
  simp [load]

theorem load_append (some rest : List (List String)) :
    load files home (some ++ rest) = load files home some + load files home rest := by
  simp [load]

theorem weight_le (files : FileSystem) (home : Location) (names : List String) :
    weight files home names ≤ files.entries.length := List.countP_le_length

theorem Listed.weight_pos (listed : Listed files home names) : 0 < weight files home names := by
  obtain ⟨entry, member⟩ := mem_locations.mp listed.present
  exact List.countP_pos_iff.mpr ⟨_, member, by simp⟩

theorem countP_children_le (location place : Location) {parts : List String}
    (once : parts.Nodup) :
    (parts.countP fun part => (location ++ [part]).isPrefixOf place) +
        (if place = location then 1 else 0) ≤ if location.isPrefixOf place then 1 else 0 := by
  by_cases within : location <+: place
  next =>
    obtain ⟨rest, rfl⟩ := within
    cases rest with
    | nil =>
        have none : (parts.countP fun part => (location ++ [part]).isPrefixOf location) = 0 := by
          refine List.countP_eq_zero.mpr fun part _ inside => ?_
          have short := (List.isPrefixOf_iff_prefix.mp inside).length_le
          rw [List.length_append, List.length_singleton] at short
          omega
        simp [none]
    | cons next rest =>
        have only : (parts.countP fun part =>
            (location ++ [part]).isPrefixOf (location ++ next :: rest)) = parts.count next := by
          refine List.countP_congr fun part _ => ?_
          simp [List.isPrefixOf_iff_prefix, List.prefix_append_right_inj]
        have single := List.nodup_iff_count_le_one.mp once next
        simp [only, single]
  next =>
    have none : (parts.countP fun part => (location ++ [part]).isPrefixOf place) = 0 := by
      refine List.countP_eq_zero.mpr fun part _ inside => within ?_
      exact (List.prefix_append ..).trans (List.isPrefixOf_iff_prefix.mp inside)
    have apart : place ≠ location := by
      rintro rfl
      exact within List.prefix_rfl
    simp [none, apart]

theorem countP_eq_sum (parts : List String) (test : String → Bool) :
    parts.countP test = (parts.map fun part => if test part then 1 else 0).sum := by
  induction parts with
  | nil => rfl
  | cons part rest ih => simp [List.countP_cons, ih, Nat.add_comm]

theorem weight_children (files : FileSystem) (home : Location) (names : List String)
    {parts : List String} (once : parts.Nodup) :
    load files home (parts.map fun part => names ++ [part]) +
        (files.entries.countP fun entry => entry.1 == home ++ names) ≤
      weight files home names := by
  simp only [load, weight, List.map_map, Function.comp_def, ← List.append_assoc]
  induction files.entries with
  | nil => simp
  | cons entry rest ih =>
      have here := countP_children_le (home ++ names) entry.1 once
      have split : (parts.map fun part => (entry :: rest).countP fun entry =>
            (home ++ names ++ [part]).isPrefixOf entry.1).sum =
          (parts.map fun part => rest.countP fun entry =>
            (home ++ names ++ [part]).isPrefixOf entry.1).sum +
          parts.countP fun part => (home ++ names ++ [part]).isPrefixOf entry.1 := by
        simp only [List.countP_cons, List.sum_map_add, countP_eq_sum parts]
      rw [split, List.countP_cons, List.countP_cons]
      simp only [beq_iff_eq]
      omega

theorem load_children_lt (scope : Scope) (rooted : files.Rooted) (listed : Listed files home names) :
    load files home (scope.childrenOf files names) < weight files home names := by
  have bound := weight_children files home names
    (nodup_list rooted.once (scope.root.below names))
  obtain ⟨entry, member⟩ := mem_locations.mp listed.present
  have self : 0 < files.entries.countP fun entry => entry.1 == home ++ names :=
    List.countP_pos_iff.mpr ⟨_, member, by simp⟩
  unfold childrenOf
  omega

theorem load_start (scope : Scope) (rooted : files.Rooted) (home : Location) :
    load files home (scope.childrenOf files []) ≤ files.entries.length := by
  have bound := weight_children files home []
    (nodup_list rooted.once (scope.root.below []))
  exact Nat.le_trans (Nat.le_of_add_right_le bound) (weight_le ..)

-- What a search has yet to visit is there, and the steps are enough for it.
structure Underway (files : FileSystem) (home : Location) (steps : Nat)
    (pending : List (List String)) : Prop where
  listed : ∀ names ∈ pending, Listed files home names
  enough : load files home pending ≤ steps

namespace Underway

variable {steps : Nat} {rest : List (List String)}

theorem head (underway : Underway files home steps (names :: rest)) : Listed files home names :=
  underway.listed names (by simp)

theorem step (underway : Underway files home steps (names :: rest)) :
    ∃ fewer, steps = fewer + 1 ∧ Underway files home fewer rest := by
  have positive := underway.head.weight_pos
  have enough := underway.enough
  rw [load_cons] at enough
  have later : ∀ other ∈ rest, Listed files home other :=
    fun other member => underway.listed other (List.mem_cons_of_mem _ member)
  exact ⟨steps - 1, by omega, later, by omega⟩

theorem descend (rooted : files.Rooted) (leads : files.locate scope.root = .ok home)
    (underway : Underway files home (steps + 1) (names :: rest)) :
    Underway files home steps (scope.childrenOf files names ++ rest) where
  listed child member := by
    rcases List.mem_append.mp member with new | old
    next => exact listed_of_child rooted leads underway.head.named new
    next => exact underway.listed child (List.mem_cons_of_mem _ old)
  enough := by
    have lighter := load_children_lt scope rooted underway.head
    have enough := underway.enough
    rw [load_cons] at enough
    rw [load_append]
    omega

end Underway

theorem searchFrom_found (rooted : files.Rooted) (leads : files.locate scope.root = .ok home)
    (steps : Nat) (listed : ∀ names ∈ pending, Listed files home names) :
    ∀ names ∈ (scope.searchFrom files steps pending).1,
      Listed files home names ∧ scope.visit files (scope.root.below names) = .ok .take := by
  induction steps generalizing pending with
  | zero => simp [searchFrom]
  | succ steps ih =>
      cases pending with
      | nil => simp [searchFrom]
      | cons names rest =>
          have first := listed names (by simp)
          have later : ∀ other ∈ rest, Listed files home other :=
            fun other member => listed other (List.mem_cons_of_mem _ member)
          simp only [searchFrom]
          split
          next => simp
          next => exact ih later
          next =>
            refine ih fun other member => ?_
            rcases List.mem_append.mp member with child | member
            next => exact listed_of_child rooted leads first.named child
            next => exact later other member
          next taken =>
            intro other member
            rcases List.mem_cons.mp member with rfl | member
            next => exact ⟨first, taken⟩
            next => exact ih later other member

def Apart (one other : List String) : Prop := ¬one <+: other ∧ ¬other <+: one

theorem apart_children (once : files.locations.Nodup) (names : List String) :
    (scope.childrenOf files names).Pairwise Apart := by
  refine (nodup_children once names).imp_of_mem fun one other different => ?_
  obtain ⟨first, -, rfl⟩ := List.mem_map.mp one
  obtain ⟨second, -, rfl⟩ := List.mem_map.mp other
  have unlike : first ≠ second := by
    rintro rfl
    exact different rfl
  simp [Apart, List.prefix_append_right_inj, unlike, unlike.symm]

theorem apart_of_child {other child : List String} (apart : Apart names other)
    (member : child ∈ scope.childrenOf files names) : Apart child other := by
  obtain ⟨name, -, rfl⟩ := List.mem_map.mp member
  refine ⟨fun within => apart.1 ((List.prefix_append ..).trans within), fun within => ?_⟩
  rcases List.prefix_concat_iff.mp within with whole | above
  next => exact apart.1 (whole ▸ List.prefix_append ..)
  next => exact apart.2 above

theorem searchFrom_below (steps : Nat) :
    ∀ names ∈ (scope.searchFrom files steps pending).1, ∃ above ∈ pending, above <+: names := by
  induction steps generalizing pending with
  | zero => simp [searchFrom]
  | succ steps ih =>
      cases pending with
      | nil => simp [searchFrom]
      | cons first rest =>
          have later (names : List String) :
              (∃ above ∈ rest, above <+: names) → ∃ above ∈ first :: rest, above <+: names :=
            fun ⟨above, member, within⟩ => ⟨above, List.mem_cons_of_mem _ member, within⟩
          intro names found
          simp only [searchFrom] at found
          split at found
          next => simp at found
          next => exact later names (ih names found)
          next =>
            obtain ⟨above, member, within⟩ := ih names found
            rcases List.mem_append.mp member with child | member
            next =>
              obtain ⟨name, -, rfl⟩ := List.mem_map.mp child
              exact ⟨first, by simp, (List.prefix_append ..).trans within⟩
            next => exact later names ⟨above, member, within⟩
          next =>
            rcases List.mem_cons.mp found with rfl | found
            next => exact ⟨names, by simp, List.prefix_rfl⟩
            next => exact later names (ih names found)

theorem searchFrom_nodup (once : files.locations.Nodup) (steps : Nat)
    (apart : pending.Pairwise Apart) : (scope.searchFrom files steps pending).1.Nodup := by
  induction steps generalizing pending with
  | zero => simp [searchFrom]
  | succ steps ih =>
      cases pending with
      | nil => simp [searchFrom]
      | cons names rest =>
          obtain ⟨first, later⟩ := List.pairwise_cons.mp apart
          simp only [searchFrom]
          split
          next => simp
          next => exact ih later
          next =>
            refine ih (List.pairwise_append.mpr ⟨apart_children once names, later, ?_⟩)
            exact fun child member other inside => apart_of_child (first other inside) member
          next =>
            refine List.nodup_cons.mpr ⟨fun again => ?_, ih later⟩
            obtain ⟨above, member, within⟩ := searchFrom_below steps names again
            exact (first above member).2 within

def seen (cut : List Location) (home : Location) (names : List String) : Bool :=
  !covers cut (home ++ names)

def Closed (scope : Scope) (files : FileSystem) (home : Location) (cut : List Location) : Prop :=
  ∀ names, Listed files home names → seen cut home names = false →
    scope.visit files (scope.root.below names) = .ok .pass ∨
      scope.visit files (scope.root.below names) = .ok .take

theorem searchFrom_closed (closed : scope.Closed files home cut)
    (listed : Listed files home names) (hidden : seen cut home names = false) (steps : Nat)
    (rest : List (List String)) :
    (scope.searchFrom files (steps + 1) (names :: rest)).1.filter (seen cut home) =
        (scope.searchFrom files steps rest).1.filter (seen cut home) ∧
      (scope.searchFrom files (steps + 1) (names :: rest)).2 =
        (scope.searchFrom files steps rest).2 := by
  rcases closed names listed hidden with passed | taken
  next => simp [searchFrom, passed]
  next => simp [searchFrom, taken, hidden]

theorem children_alike (alike : Alike cut scope.root home first second) (ahead : Ahead names)
    (open_ : seen cut home names = true) :
    (scope.childrenOf second names).filter (seen cut home) =
      (scope.childrenOf first names).filter (seen cut home) := by
  have lists := alike.list ahead (by simpa [seen] using open_)
  simp only [childrenOf, List.filter_map, Function.comp_def, seen]
  rw [lists]

theorem visit_outline (scope : Scope) (files : FileSystem) (entry : Path) :
    scope.visit files.outline entry = scope.visit files entry := by
  unfold visit entriesOf
  rw [look_outline, list_outline]
  split
  next => rfl
  next => rfl
  next =>
    cases files.look entry with
    | error fault => rfl
    | ok found =>
        cases found with
        | none => rfl
        | some kind => cases kind <;> rfl

theorem visit_alike (alike : Alike cut scope.root home first second) (ahead : Ahead names)
    (open_ : seen cut home names = true) :
    scope.visit second (scope.root.below names) =
      match scope.visit first (scope.root.below names) with
      | .ok (.descend _) => .ok (.descend ((scope.childrenOf second names).map scope.root.below))
      | visit => visit := by
  have children (files : FileSystem) : scope.childrenOf files.outline names =
      scope.childrenOf files names := by simp only [childrenOf, list_outline]
  rw [← visit_outline scope first, ← visit_outline scope second, visit_below, visit_below,
    alike.look ahead (by simpa [seen] using open_), children, children]
  split
  next => rfl
  next =>
    split
    next => rfl
    next => rfl
    next => split <;> rfl
    next => rfl

theorem filter_dropHidden (pending : List (List String)) :
    (pending.dropWhile fun names => !seen cut home names).filter (seen cut home) =
      pending.filter (seen cut home) := by
  induction pending with
  | nil => rfl
  | cons names rest ih => cases visible : seen cut home names <;> simp [visible, ih]

theorem searchFrom_dropHidden (closed : scope.Closed files home cut) {steps : Nat}
    (underway : Underway files home steps pending) :
    ∃ fewer ≤ steps,
      Underway files home fewer (pending.dropWhile fun names => !seen cut home names) ∧
      (scope.searchFrom files steps pending).1.filter (seen cut home) =
        (scope.searchFrom files fewer
          (pending.dropWhile fun names => !seen cut home names)).1.filter (seen cut home) ∧
      (scope.searchFrom files steps pending).2 =
        (scope.searchFrom files fewer (pending.dropWhile fun names => !seen cut home names)).2 := by
  induction pending generalizing steps with
  | nil => exact ⟨steps, Nat.le_refl _, underway, rfl, rfl⟩
  | cons names rest ih =>
      cases visible : seen cut home names with
      | true =>
          simp only [List.dropWhile_cons, visible, Bool.not_true, Bool.false_eq_true, if_false]
          exact ⟨steps, Nat.le_refl _, underway, rfl, rfl⟩
      | false =>
          obtain ⟨fewer, rfl, later⟩ := underway.step
          obtain ⟨found, fault⟩ := searchFrom_closed closed underway.head visible fewer rest
          obtain ⟨least, less, onward⟩ := ih later
          simp only [List.dropWhile_cons, visible, Bool.not_false, if_true, found, fault]
          exact ⟨least, Nat.le_succ_of_le less, onward⟩

theorem searchFrom_alike (alike : Alike cut scope.root home first second)
    (rooted : first.Rooted) (rootedSecond : second.Rooted)
    (closed : scope.Closed first home cut) (closedSecond : scope.Closed second home cut)
    {steps stepsSecond : Nat} {pendingSecond : List (List String)}
    (underway : Underway first home steps pending)
    (underwaySecond : Underway second home stepsSecond pendingSecond)
    (same : pendingSecond.filter (seen cut home) = pending.filter (seen cut home)) :
    (scope.searchFrom second stepsSecond pendingSecond).1.filter (seen cut home) =
        (scope.searchFrom first steps pending).1.filter (seen cut home) ∧
      (scope.searchFrom second stepsSecond pendingSecond).2 =
        (scope.searchFrom first steps pending).2 := by
  -- The searches take different numbers of steps, but they come to what both enter in turn.
  induction steps using Nat.strongRecOn generalizing stepsSecond pending pendingSecond with
  | ind steps ih =>
  obtain ⟨left, less, visible, found, fault⟩ := searchFrom_dropHidden closed underway
  obtain ⟨leftSecond, -, visibleSecond, foundSecond, faultSecond⟩ :=
    searchFrom_dropHidden closedSecond underwaySecond
  have head := List.head?_dropWhile_not (fun names => !seen cut home names) pending
  have headSecond := List.head?_dropWhile_not (fun names => !seen cut home names) pendingSecond
  rw [found, fault, foundSecond, faultSecond]
  rw [← filter_dropHidden pending, ← filter_dropHidden pendingSecond] at same
  generalize pending.dropWhile (fun names => !seen cut home names) = ahead at *
  generalize pendingSecond.dropWhile (fun names => !seen cut home names) = aheadSecond at *
  cases ahead with
  | nil =>
      cases aheadSecond with
      | nil => cases left <;> cases leftSecond <;> simp [searchFrom]
      | cons other restSecond => simp_all
  | cons names rest =>
      cases aheadSecond with
      | nil => simp_all
      | cons other restSecond =>
          have open_ : seen cut home names = true := by simpa using head
          have openSecond : seen cut home other = true := by simpa using headSecond
          simp only [List.filter_cons, open_, openSecond, if_true, List.cons.injEq] at same
          obtain ⟨rfl, rests⟩ := same
          obtain ⟨fewer, rfl, later⟩ := visible.step
          obtain ⟨fewerSecond, rfl, laterSecond⟩ := visibleSecond.step
          have onward := ih fewer less later laterSecond rests
          simp only [searchFrom, visit_alike alike visible.head.ahead open_]
          cases scope.visit first (scope.root.below other) with
          | error fault => simp
          | ok visit =>
              cases visit with
              | pass => exact onward
              | take => simpa [open_] using onward
              | descend entries =>
                  refine ih fewer less (visible.descend rooted alike.leads)
                    (visibleSecond.descend rootedSecond alike.leadsSecond) ?_
                  rw [List.filter_append, List.filter_append, rests,
                    children_alike alike visible.head.ahead open_]

end ScriptTyping.Scope
