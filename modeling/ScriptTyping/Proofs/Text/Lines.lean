import Mathlib.Data.List.TakeWhile
import ScriptTyping.Text.Blank
import ScriptTyping.Text.Lines

set_option autoImplicit false

namespace ScriptTyping

-- The lines of a text. A line feed directly behind a carriage return belongs to the same line end,
-- and nothing follows a line end at the end of the text.
def lines : List Char → List (List Char)
  | [] => []
  | '\r' :: '\n' :: rest => [] :: lines rest
  | c :: rest =>
      if isLineEnd c then [] :: lines rest
      else
        match lines rest with
        | [] => [[c]]
        | line :: others => (c :: line) :: others

theorem isBlank_of_isLineEnd {c : Char} (ends : isLineEnd c = true) : isBlank c = true := by
  simp only [isLineEnd, isBlank, Bool.or_eq_true, Bool.and_eq_true, decide_eq_true_eq,
    beq_iff_eq] at ends ⊢
  omega

theorem firstLine_cons_of_not {c : Char} (other : isLineEnd c = false) (rest : List Char) :
    firstLine (c :: rest) = c :: firstLine rest := by
  simp [firstLine, other]

theorem firstLine_cons_of_end {c : Char} (ends : isLineEnd c = true) (rest : List Char) :
    firstLine (c :: rest) = [] := by
  simp [firstLine, ends]

theorem head?_lines {chars : List Char} (nonempty : chars ≠ []) :
    (lines chars).head? = some (firstLine chars) := by
  fun_induction lines chars with
  | case1 => exact absurd rfl nonempty
  | case2 rest ih => rw [firstLine_cons_of_end (by decide)]; rfl
  | case3 c rest _ ends ih => rw [firstLine_cons_of_end ends]; rfl
  | case4 c rest _ other none ih =>
      have last : rest = [] := by
        cases rest with
        | nil => rfl
        | cons next more => simp [none] at ih
      rw [firstLine_cons_of_not (by simpa using other), last]
      rfl
  | case5 c rest _ other line others found ih =>
      have more : rest ≠ [] := by
        rintro rfl
        simp [lines] at found
      have first := ih more
      rw [found, List.head?_cons, Option.some.injEq] at first
      rw [firstLine_cons_of_not (by simpa using other), first]
      rfl

theorem stripBlank_cases (chars : List Char) :
    ((∀ c ∈ chars, isBlank c = true) ∧ stripBlank chars = []) ∨
      ∃ c rest, c ∈ chars ∧ isBlank c = false ∧ stripBlank chars = c :: rest := by
  cases opened : chars.dropWhile isBlank with
  | nil =>
      exact .inl ⟨List.dropWhile_eq_nil_iff.mp opened, by simp [stripBlank, opened]⟩
  | cons c rest =>
      have nonblank : isBlank c = false := by
        have first := List.head?_dropWhile_not isBlank chars
        simpa [opened] using first
      have member : c ∈ chars :=
        (List.dropWhile_sublist isBlank).subset (by rw [opened]; exact List.mem_cons_self)
      refine .inr ⟨c, (rest.reverse.dropWhile isBlank).reverse, member, nonblank, ?_⟩
      rw [stripBlank, opened, List.reverse_cons, List.dropWhile_append]
      split
      next empty => simp [nonblank, List.isEmpty_iff.mp empty]
      next => simp

theorem stripBlank_eq_nil_iff (chars : List Char) :
    stripBlank chars = [] ↔ ∀ c ∈ chars, isBlank c = true := by
  rcases stripBlank_cases chars with ⟨blank, none⟩ | ⟨c, rest, member, nonblank, some⟩
  · exact ⟨fun _ => blank, fun _ => none⟩
  · refine ⟨fun none => by simp [some] at none, fun blank => ?_⟩
    simp [blank c member] at nonblank

theorem firstLine_stripBlank (chars : List Char) :
    firstLine (stripBlank chars) = [] ↔ ∀ c ∈ chars, isBlank c = true := by
  rw [← stripBlank_eq_nil_iff]
  rcases stripBlank_cases chars with ⟨_, none⟩ | ⟨c, rest, _, nonblank, some⟩
  · simp [none, firstLine]
  · have plain : isLineEnd c = false := by
      by_contra ends
      simp [isBlank_of_isLineEnd (by simpa using ends)] at nonblank
    simp [some, firstLine_cons_of_not plain]

def withLineFeeds : List Char → List Char
  | [] => []
  | '\r' :: '\n' :: rest => '\n' :: withLineFeeds rest
  | '\r' :: rest => '\n' :: withLineFeeds rest
  | c :: rest => c :: withLineFeeds rest

theorem toList_unifyLineEndsFrom (chars : List Char) (written : Array Char) :
    (unifyLineEndsFrom chars written).toList = written.toList ++ withLineFeeds chars := by
  fun_induction unifyLineEndsFrom chars written with
  | case1 => simp [withLineFeeds]
  | case2 rest written ih => simp [withLineFeeds, ih]
  | case3 rest written alone ih => simp [withLineFeeds, ih]
  | case4 c rest written pair other ih => simp [withLineFeeds, ih]

theorem toList_unifyLineEnds (text : String) :
    (unifyLineEnds text).toList = withLineFeeds text.toList := by
  simp [unifyLineEnds, toList_unifyLineEndsFrom]

theorem not_mem_withLineFeeds (chars : List Char) : '\r' ∉ withLineFeeds chars := by
  fun_induction withLineFeeds chars with
  | case1 => simp
  | case2 rest ih => simp [ih]
  | case3 rest alone ih => simp [ih]
  | case4 c rest pair other ih => simpa [ih] using fun same : '\r' = c => other same.symm

theorem lines_cons_of_alone {c : Char} {rest : List Char}
    (alone : ∀ more, c = '\r' → rest = '\n' :: more → False) :
    lines (c :: rest) =
      if isLineEnd c then [] :: lines rest
      else
        match lines rest with
        | [] => [[c]]
        | line :: others => (c :: line) :: others := by
  rw [lines]
  exact alone

theorem lines_feed (rest : List Char) : lines ('\n' :: rest) = [] :: lines rest := by
  rw [lines_cons_of_alone (by simp), if_pos (by decide)]

theorem lines_withLineFeeds (chars : List Char) : lines (withLineFeeds chars) = lines chars := by
  fun_induction withLineFeeds chars with
  | case1 => rfl
  | case2 rest ih => rw [lines_feed, ih, lines]
  | case3 rest alone ih =>
      rw [lines_feed, ih, lines_cons_of_alone fun more _ next => alone more next,
        if_pos (by decide)]
  | case4 c rest pair other ih =>
      rw [lines_cons_of_alone fun _ same _ => other same,
        lines_cons_of_alone fun _ same _ => other same, ih]

theorem lines_unifyLineEnds (text : String) : lines (unifyLineEnds text).toList = lines text.toList := by
  rw [toList_unifyLineEnds, lines_withLineFeeds]

theorem unifyLineEnds_eq_iff (text : String) : unifyLineEnds text = text ↔ '\r' ∉ text.toList := by
  refine ⟨fun same present => ?_, unifyLineEnds_of_not_mem text⟩
  rw [← same, toList_unifyLineEnds] at present
  exact not_mem_withLineFeeds _ present

end ScriptTyping
