import Mathlib.Data.Nat.Nth
import ScriptTyping.Proofs.Rule.SyntheticNames

set_option autoImplicit false

namespace ScriptTyping

namespace FreshNames

def Free (taken : List String) (number : Nat) : Prop := name number ∉ taken

instance (taken : List String) : DecidablePred (Free taken) :=
  fun number => inferInstanceAs (Decidable (name number ∉ taken))

inductive Draws (taken : List String) : Nat → List String → Prop where
  | done {start : Nat} : Draws taken start []
  | pass {start : Nat} {names : List String} (unfree : name start ∈ taken)
      (later : Draws taken (start + 1) names) : Draws taken start names
  | take {start : Nat} {names : List String} (free : name start ∉ taken)
      (later : Draws taken (start + 1) names) : Draws taken start (name start :: names)

variable {taken : List String}

theorem taken_of_lt_search {tries start number : Nat} (least : start ≤ number)
    (less : number < search taken tries start) : name number ∈ taken := by
  induction tries generalizing start with
  | zero => exact absurd less (Nat.not_lt_of_le least)
  | succ tries ih =>
      rw [search] at less
      split at less
      next first =>
        rcases Nat.eq_or_lt_of_le least with rfl | later
        · simpa using first
        · exact ih later less
      next => exact absurd less (Nat.not_lt_of_le least)

theorem next_eq {start number : Nat} (least : start ≤ number) (free : name number ∉ taken)
    (before : ∀ other, start ≤ other → other < number → name other ∈ taken) :
    next taken start = number := by
  refine Nat.le_antisymm (Nat.le_of_not_lt fun less => ?_) (Nat.le_of_not_lt fun less => ?_)
  · exact free (taken_of_lt_search least less)
  · exact next_not_taken taken start (before _ (le_search taken _ start) less)

theorem next_of_free {start : Nat} (free : name start ∉ taken) : next taken start = start :=
  next_eq (Nat.le_refl start) free fun _ least less => absurd less (Nat.not_lt_of_le least)

theorem next_of_taken {start : Nat} (unfree : name start ∈ taken) :
    next taken start = next taken (start + 1) := by
  have later := le_search taken taken.length (start + 1)
  refine next_eq (Nat.le_of_succ_le later) (next_not_taken taken (start + 1)) fun other least less => ?_
  rcases Nat.eq_or_lt_of_le least with rfl | above
  · exact unfree
  · exact taken_of_lt_search above less

theorem drawFrom_of_taken {start : Nat} (unfree : name start ∈ taken) (count : Nat) :
    drawFrom taken count start = drawFrom taken count (start + 1) := by
  cases count with
  | zero => rfl
  | succ count => rw [drawFrom, drawFrom, next_of_taken unfree]

@[simp]
theorem length_drawFrom (taken : List String) (count start : Nat) :
    (drawFrom taken count start).length = count := by
  induction count generalizing start with
  | zero => rfl
  | succ count ih => simp [drawFrom, ih]

theorem Draws.earlier {start number : Nat} {names : List String} (least : start ≤ number)
    (before : ∀ other, start ≤ other → other < number → name other ∈ taken)
    (later : Draws taken number names) : Draws taken start names := by
  induction least with
  | refl => exact later
  | step least ih =>
      refine ih (fun other above less => before other above (Nat.lt_succ_of_lt less)) ?_
      exact .pass (before _ least (Nat.lt_succ_self _)) later

theorem draws_drawFrom (taken : List String) (count start : Nat) :
    Draws taken start (drawFrom taken count start) := by
  induction count generalizing start with
  | zero => exact .done
  | succ count ih =>
      exact .earlier (le_search taken _ start) (fun _ => taken_of_lt_search)
        (.take (next_not_taken taken start) (ih _))

theorem Draws.eq_drawFrom {start : Nat} {names : List String} (draws : Draws taken start names) :
    names = drawFrom taken names.length start := by
  induction draws with
  | done => rfl
  | pass unfree _ ih => rwa [drawFrom_of_taken unfree]
  | take free _ ih =>
      rw [List.length_cons, drawFrom, next_of_free free]
      exact congrArg _ ih

-- What is drawn from a start on follows the free numbers below it in the count.
theorem drawFrom_eq_nth (taken : List String) (count start : Nat) :
    drawFrom taken count start = (List.range count).map fun place =>
      name (Nat.nth (Free taken) (Nat.count (Free taken) start + place)) := by
  induction count generalizing start with
  | zero => rfl
  | succ count ih =>
      have free : Free taken (next taken start) := next_not_taken taken start
      have below : Nat.count (Free taken) (next taken start) = Nat.count (Free taken) start := by
        obtain ⟨distance, apart⟩ := Nat.exists_eq_add_of_le (le_search taken taken.length start)
        rw [show next taken start = start + distance from apart, Nat.count_add, Nat.add_eq_left,
          Nat.count_iff_forall_not]
        intro offset less free
        exact free (taken_of_lt_search (Nat.le_add_right start offset)
          (Nat.lt_of_lt_of_eq (Nat.add_lt_add_left less start) apart.symm))
      have first : Nat.nth (Free taken) (Nat.count (Free taken) start) = next taken start := by
        rw [← below, Nat.nth_count free]
      have later : Nat.count (Free taken) (next taken start + 1) =
          Nat.count (Free taken) start + 1 := by
        rw [Nat.count_succ, if_pos free, below]
      simp only [drawFrom, ih, List.range_succ_eq_map, List.map_cons, List.map_map, Function.comp_def,
        Nat.add_zero, Nat.succ_eq_add_one, first, later, Nat.add_assoc, Nat.add_comm 1]

end FreshNames

namespace Functions

open FreshNames

/-- Any number of names can be drawn, in one way only: they are the first free names of the sequence, all
different. The new names of a function's parameters are drawn like this, away from all names that the
function binds. -/
theorem draw_first_free :
    (∀ taken count, Draws taken 0 (draw taken count) ∧
      (∀ names, Draws taken 0 names → names.length = count → names = draw taken count) ∧
      draw taken count = (List.range count).map (fun place => name (Nat.nth (Free taken) place)) ∧
      (draw taken count).length = count ∧ (draw taken count).Nodup ∧
      ∀ drawn ∈ draw taken count, drawn ∉ taken) ∧
    ∀ above tree session,
      (withParameters? tree = none ∨
        ∃ names, Introduces tree (handle above tree session).tree names) ∧
      ∀ names, Introduces tree (handle above tree session).tree names →
        (∃ started list, withParameters? tree = some started ∧
          started.child? "parameters" = some list ∧
          names = draw (takenNames started list) names.length) ∧
        names.Nodup ∧ ∀ drawn ∈ names, ¬ Binds tree drawn := by
  refine ⟨fun taken count => ⟨draws_drawFrom taken count 0, ?_, ?_, length_drawFrom taken count 0,
    nodup_drawFrom taken count 0, fun _ member => (mem_drawFrom member).1⟩, fun above tree session => ?_⟩
  · rintro names draws rfl
    exact draws.eq_drawFrom
  · simpa only [draw, Nat.count_zero, Nat.zero_add] using drawFrom_eq_nth taken count 0
  · cases start : withParameters? tree with
    | none =>
        refine ⟨.inl rfl, ?_⟩
        rintro names ⟨started, _, _, found, _⟩
        simp [start] at found
    | some started =>
        obtain ⟨list, present⟩ := child?_started start
        obtain ⟨count, introduces⟩ := introduces_handle above session start present
        refine ⟨.inr ⟨_, introduces⟩, fun names given => ?_⟩
        obtain rfl := given.unique introduces
        refine ⟨⟨started, list, rfl, present, by rw [length_drawFrom]; rfl⟩,
          nodup_drawFrom _ count 0, fun drawn member binds => ?_⟩
        exact (mem_drawFrom member).1 (taken_of_binds start present binds)

section Crowding

def arrayParameter : Node :=
  .branch "required_parameter"
    [.branch "array_pattern"
      [.mark "[" "", .leaf "identifier" "x" "" none, .mark "]" ""] (some "pattern")] none

def objectParameter : Node :=
  .branch "required_parameter"
    [.branch "object_pattern"
      [.mark "\x7b" " ",
       .leaf "shorthand_property_identifier_pattern" "params3" "" none,
       .mark "\x7d" ""] (some "pattern")] none

def pair (first second : Node) : Node :=
  .branch "formal_parameters" [.mark "(" "", first, .mark "," "", second, .mark ")" ""]
    (some "parameters")

def crowded : Node :=
  .branch "function_declaration"
    [.mark "function" "",
     .leaf "identifier" "f" " " (some "name"),
     pair arrayParameter objectParameter,
     .branch "statement_block"
      [.mark "\x7b" " ",
       .branch "lexical_declaration"
        [.leaf "let" "let" " " (some "kind"),
         .branch "variable_declarator" [.leaf "identifier" "params" " " (some "name")] none,
         .mark ";" ""] none,
       .branch "class_declaration"
        [.mark "class" " ",
         .leaf "type_identifier" "params1" " " (some "name"),
         .branch "class_body" [.mark "\x7b" " ", .mark "\x7d" ""] (some "body")] none,
       .mark "\x7d" " "] (some "body")] none

theorem crowded_drawn :
    draw ["params1"] 3 = ["params", "params2", "params3"] ∧
      ["params", "params2"] = draw ["params1"] 2 ∧
      Introduces crowded (handle [] crowded (.start .empty)).tree ["params2", "params4"] ∧
      ["params2", "params4"].Nodup ∧ ¬ Binds crowded "params2" ∧ ¬ Binds crowded "params4" := by
  have searched : Draws ["params1"] 0 ["params", "params2"] :=
    .take (by decide) (.pass (by decide) (.take (by decide) .done))
  have shown : (handle [] crowded (.start .empty)).tree.child? "parameters" =
      some (pair (annotateParameter (renamed "params2" arrayParameter))
        (annotateParameter (renamed "params4" objectParameter))) := by
    decide +kernel
  have introduces : Introduces crowded (handle [] crowded (.start .empty)).tree
      ["params2", "params4"] :=
    ⟨crowded, _, _, rfl, rfl, shown, .same (.inl rfl) (.lowered rfl (.same (.inl rfl) (.lowered rfl
      (.same (.inl rfl) .nil))))⟩
  obtain ⟨drawing, handling⟩ := draw_first_free
  obtain ⟨_, distinct, spared⟩ := (handling [] crowded (.start .empty)).2 _ introduces
  exact ⟨by decide +kernel, (drawing _ 2).2.1 _ searched rfl, introduces, distinct,
    spared "params2" (by simp), spared "params4" (by simp)⟩

end Crowding

end Functions

end ScriptTyping
