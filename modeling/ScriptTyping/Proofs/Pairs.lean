import Mathlib.Data.List.Forall2

set_option autoImplicit false

namespace List.Forall₂

universe u v w

variable {α : Type u} {β : Type v} {γ : Type w} {first : α → β → Prop} {second : β → γ → Prop}
  {both : α → γ → Prop}

theorem exists_of_mem_left {xs : List α} {ys : List β} (pairs : Forall₂ first xs ys) {x : α}
    (member : x ∈ xs) : ∃ y ∈ ys, first x y := by
  induction pairs with
  | nil => cases member
  | cons here later ih =>
      cases member with
      | head => exact ⟨_, .head _, here⟩
      | tail _ below =>
          obtain ⟨y, present, pair⟩ := ih below
          exact ⟨y, .tail _ present, pair⟩

theorem exists_of_mem_right {xs : List α} {ys : List β} (pairs : Forall₂ first xs ys) {y : β}
    (member : y ∈ ys) : ∃ x ∈ xs, first x y :=
  exists_of_mem_left pairs.flip member

theorem comp {xs : List α} {ys : List β} {zs : List γ} (left : Forall₂ first xs ys)
    (right : Forall₂ second ys zs) (compose : ∀ x y z, first x y → second y z → both x z) :
    Forall₂ both xs zs := by
  induction left generalizing zs with
  | nil =>
      cases right
      exact .nil
  | cons here later ih =>
      cases right with
      | cons there others => exact .cons (compose _ _ _ here there) (ih others)

theorem exists_between {xs : List α} {zs : List γ}
    (pairs : Forall₂ (fun x z => ∃ y, first x y ∧ second y z) xs zs) :
    ∃ ys, Forall₂ first xs ys ∧ Forall₂ second ys zs := by
  induction pairs with
  | nil => exact ⟨[], .nil, .nil⟩
  | cons here later ih =>
      obtain ⟨y, left, right⟩ := here
      obtain ⟨ys, lefts, rights⟩ := ih
      exact ⟨y :: ys, .cons left lefts, .cons right rights⟩

theorem right_unique {xs : List α} {ys : List β} {zs : List γ} {other : α → γ → Prop}
    {related : β → γ → Prop} (left : Forall₂ first xs ys) (right : Forall₂ other xs zs)
    (each : ∀ x ∈ xs, ∀ y z, first x y → other x z → related y z) : Forall₂ related ys zs := by
  induction left generalizing zs with
  | nil =>
      cases right
      exact .nil
  | cons here later ih =>
      cases right with
      | cons there others =>
          exact .cons (each _ (by simp) _ _ here there)
            (ih others fun x member => each x (by simp [member]))

theorem filterMap {after : β → γ → Prop} {f : α → Option β} {g : α → Option γ} {related : α → α → Prop}
    {xs ys : List α} (pairs : Forall₂ related xs ys)
    (each : ∀ x y, related x y → (f x = none ∧ g y = none) ∨
      ∃ b c, f x = some b ∧ g y = some c ∧ after b c) :
    Forall₂ after (xs.filterMap f) (ys.filterMap g) := by
  induction pairs with
  | nil => exact .nil
  | cons here later ih =>
      rcases each _ _ here with ⟨left, right⟩ | ⟨b, c, left, right, both⟩
      · simpa [left, right] using ih
      · simpa [left, right] using Forall₂.cons both ih

theorem split_left {left right : List α} {x : α} {ys : List β}
    (pairs : Forall₂ first (left ++ x :: right) ys) :
    ∃ before y after, ys = before ++ y :: after ∧ Forall₂ first left before ∧ first x y ∧
      Forall₂ first right after := by
  induction left generalizing ys with
  | nil =>
      cases pairs with
      | cons here later => exact ⟨[], _, _, rfl, .nil, here, later⟩
  | cons head rest ih =>
      cases pairs with
      | cons here later =>
          obtain ⟨before, y, after, rfl, earlier, pair, others⟩ := ih later
          exact ⟨_ :: before, y, after, rfl, .cons here earlier, pair, others⟩

theorem split_right {xs : List α} {left right : List β} {y : β}
    (pairs : Forall₂ first xs (left ++ y :: right)) :
    ∃ before x after, xs = before ++ x :: after ∧ Forall₂ first before left ∧ first x y ∧
      Forall₂ first after right := by
  obtain ⟨before, x, after, same, earlier, pair, later⟩ := split_left pairs.flip
  exact ⟨before, x, after, same, earlier.flip, pair, later.flip⟩

theorem rel_getElem? {xs : List α} {ys : List β} (pairs : Forall₂ first xs ys) (place : Nat) :
    Option.Rel first xs[place]? ys[place]? := by
  induction pairs generalizing place with
  | nil => exact .none
  | cons here _ ih =>
      cases place with
      | zero => exact .some here
      | succ place => exact ih place

theorem map_eq {f : α → γ} {g : β → γ} {xs : List α} {ys : List β}
    (pairs : Forall₂ (fun x y => g y = f x) xs ys) : ys.map g = xs.map f := by
  induction pairs with
  | nil => rfl
  | cons here later ih => rw [List.map_cons, List.map_cons, here, ih]

theorem countP_eq {p : α → Bool} {q : β → Bool} {xs : List α} {ys : List β}
    (pairs : Forall₂ (fun x y => q y = p x) xs ys) : ys.countP q = xs.countP p := by
  induction pairs with
  | nil => rfl
  | cons here later ih => rw [List.countP_cons, List.countP_cons, here, ih]

end List.Forall₂
