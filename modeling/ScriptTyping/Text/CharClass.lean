set_option autoImplicit false

namespace ScriptTyping

structure CharClass where
  edges : Array Nat

-- A code point is in the class when an odd number of edges lie at or before it.
def CharClass.contains (chars : CharClass) (code : Nat) : Bool :=
  chars.edges.foldl (fun inside edge => if edge ≤ code then !inside else inside) false

end ScriptTyping
