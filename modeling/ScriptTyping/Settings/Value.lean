set_option autoImplicit false

namespace ScriptTyping

inductive Value where
  | null
  | bool (value : Bool)
  | integer (value : Int)
  | float (value : Float)
  | text (value : String)
  | moment (written : String)
  | list (items : List Value)
  -- Entries in the order of their keys' first occurrence.
  | table (entries : List (String × Value))

instance : Inhabited Value := ⟨.null⟩

abbrev Entries := List (String × Value)

namespace Entries

def get? (entries : Entries) (key : String) : Option Value :=
  (entries.find? fun entry => entry.1 == key).map (·.2)

def put (key : String) (value : Value) : Entries → Entries
  | [] => [(key, value)]
  | entry :: rest =>
      if entry.1 == key then (key, value) :: rest else entry :: put key value rest

theorem get?_put_self (key : String) (value : Value) (entries : Entries) :
    (put key value entries).get? key = some value := by
  induction entries with
  | nil => simp [put, get?]
  | cons entry rest ih =>
      by_cases same : entry.1 == key
      · simp [put, get?, same]
      · simp only [get?] at ih
        simp [put, get?, same, ih]

end Entries

end ScriptTyping
