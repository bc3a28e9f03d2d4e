set_option autoImplicit false

namespace ScriptTyping.FreshNames

def name : Nat → String
  | 0 => "params"
  | number + 1 => "params" ++ toString (number + 1)

def search (taken : List String) : Nat → Nat → Nat
  | 0, start => start
  | tries + 1, start => if taken.contains (name start) then search taken tries (start + 1) else start

-- The first number from `start` on whose name is not taken. Each number that is passed over uses up
-- one of the taken names, so there are enough tries.
def next (taken : List String) (start : Nat) : Nat := search taken taken.length start

def drawFrom (taken : List String) : Nat → Nat → List String
  | 0, _ => []
  | count + 1, start =>
      let number := next taken start
      name number :: drawFrom taken count (number + 1)

def draw (taken : List String) (count : Nat) : List String := drawFrom taken count 0

end ScriptTyping.FreshNames
