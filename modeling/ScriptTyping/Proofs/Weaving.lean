import Mathlib.Data.List.Nodup
import Mathlib.Data.List.Perm.Basic

set_option autoImplicit false

namespace ScriptTyping

universe u

variable {α : Type u}

inductive Weaves : List α → List α → List α → Prop where
  | nil : Weaves [] [] []
  | keep {kept moved whole : List α} (entry : α) (rest : Weaves kept moved whole) :
      Weaves (entry :: kept) moved (entry :: whole)
  | move {kept moved whole : List α} (entry : α) (rest : Weaves kept moved whole) :
      Weaves kept (entry :: moved) (entry :: whole)

namespace Weaves

variable {kept moved whole kept' moved' whole' : List α}

theorem all_kept (entries : List α) : Weaves entries [] entries := by
  induction entries with
  | nil => exact .nil
  | cons entry rest ih => exact .keep entry ih

theorem all_moved (entries : List α) : Weaves [] entries entries := by
  induction entries with
  | nil => exact .nil
  | cons entry rest ih => exact .move entry ih

theorem append (first : Weaves kept moved whole) (second : Weaves kept' moved' whole') :
    Weaves (kept ++ kept') (moved ++ moved') (whole ++ whole') := by
  induction first with
  | nil => exact second
  | keep entry rest ih => exact .keep entry ih
  | move entry rest ih => exact .move entry ih

theorem between (weaves : Weaves kept moved whole) (front back : List α) :
    Weaves (front ++ kept ++ back) moved (front ++ whole ++ back) := by
  have all := ((all_kept front).append weaves).append (all_kept back)
  simpa using all

theorem perm (weaves : Weaves kept moved whole) : whole.Perm (kept ++ moved) := by
  induction weaves with
  | nil => exact .refl _
  | keep entry rest ih => exact ih.cons entry
  | move entry rest ih => exact (ih.cons entry).trans List.perm_middle.symm

theorem filter_kept {p : α → Bool} (weaves : Weaves kept moved whole)
    (absent : ∀ entry ∈ moved, p entry = false) : whole.filter p = kept.filter p := by
  induction weaves with
  | nil => rfl
  | keep entry rest ih => simp [List.filter_cons, ih absent]
  | move entry rest ih =>
      simp [absent entry (by simp), ih fun other member => absent other (by simp [member])]

theorem filter_moved {p : α → Bool} (weaves : Weaves kept moved whole)
    (absent : ∀ entry ∈ kept, p entry = false) : whole.filter p = moved.filter p := by
  induction weaves with
  | nil => rfl
  | move entry rest ih => simp [List.filter_cons, ih absent]
  | keep entry rest ih =>
      simp [absent entry (by simp), ih fun other member => absent other (by simp [member])]

end Weaves

theorem filter_eq_of_weaves {kept moved before after : List α} {p : α → Bool}
    (first : Weaves kept moved before) (second : Weaves kept moved after) (distinct : before.Nodup)
    (together : (∀ entry ∈ moved, p entry = false) ∨ ∀ entry, p entry = true → entry ∈ moved) :
    after.filter p = before.filter p := by
  rcases together with none | all
  · rw [first.filter_kept none, second.filter_kept none]
  · have apart := List.disjoint_of_nodup_append (first.perm.nodup_iff.mp distinct)
    have absent : ∀ entry ∈ kept, p entry = false := by
      intro entry member
      by_contra picked
      exact apart member (all entry (by simpa using picked))
    rw [first.filter_moved absent, second.filter_moved absent]

theorem filter_mem_of_sublist [DecidableEq α] {few many : List α} (sub : few.Sublist many)
    (distinct : many.Nodup) : many.filter (fun entry => entry ∈ few) = few := by
  induction sub with
  | slnil => rfl
  | cons entry sub ih =>
      obtain ⟨fresh, rest⟩ := List.nodup_cons.mp distinct
      rw [List.filter_cons_of_neg (by simpa using fun member => fresh (sub.subset member))]
      exact ih rest
  | cons_cons entry sub ih =>
      obtain ⟨fresh, rest⟩ := List.nodup_cons.mp distinct
      rw [List.filter_cons_of_pos (by simp)]
      congr 1
      rw [← ih rest]
      refine List.filter_congr fun other member => ?_
      have apart : other ≠ entry := fun same => fresh (same ▸ member)
      simp [apart, ih rest]

end ScriptTyping
