set_option autoImplicit false

namespace ScriptTyping

def isLineEnd (c : Char) : Bool :=
  let code := c.toNat
  (10 ≤ code && code ≤ 13) || (28 ≤ code && code ≤ 30) || code == 0x85 || code == 0x2028 ||
    code == 0x2029

def firstLine (chars : List Char) : List Char := chars.takeWhile fun c => !isLineEnd c

def unifyLineEndsFrom : List Char → Array Char → Array Char
  | [], written => written
  | '\r' :: '\n' :: rest, written => unifyLineEndsFrom rest (written.push '\n')
  | '\r' :: rest, written => unifyLineEndsFrom rest (written.push '\n')
  | c :: rest, written => unifyLineEndsFrom rest (written.push c)

def unifyLineEnds (text : String) : String :=
  String.ofList (unifyLineEndsFrom text.toList #[]).toList

theorem unifyLineEndsFrom_of_not_mem (chars : List Char) (written : Array Char)
    (absent : '\r' ∉ chars) :
    (unifyLineEndsFrom chars written).toList = written.toList ++ chars := by
  induction chars generalizing written with
  | nil => simp [unifyLineEndsFrom]
  | cons c rest ih =>
      have other : c ≠ '\r' := fun same => absent (by simp [same])
      have later : '\r' ∉ rest := fun present => absent (by simp [present])
      rw [unifyLineEndsFrom]
      · simp [ih _ later]
      · intro _ same
        exact absurd same other
      · exact other

theorem unifyLineEnds_of_not_mem (text : String) (absent : '\r' ∉ text.toList) :
    unifyLineEnds text = text := by
  simp [unifyLineEnds, unifyLineEndsFrom_of_not_mem text.toList #[] absent]

end ScriptTyping
