import ScriptTyping.Toml.Scan

set_option autoImplicit false

namespace ScriptTyping.Toml

abbrev Key := List String

def lastTable? (items : List Value) : Option (List Value × Entries) :=
  match items.reverse with
  | .table inner :: others => some (others.reverse, inner)
  | _ => none

-- Changes the table at the end of a key, and makes the tables on the way that are not there yet. An
-- array of tables on the way means its last table, if `throughLists` is set.
def changeAt (throughLists : Bool) (change : Entries → Option Entries) :
    Key → Entries → Option Entries
  | [], entries => change entries
  | part :: key, entries =>
      match entries.get? part with
      | none =>
          (changeAt throughLists change key []).map fun made => entries.put part (.table made)
      | some (.table inner) =>
          (changeAt throughLists change key inner).map fun changed =>
            entries.put part (.table changed)
      | some (.list items) =>
          match throughLists, lastTable? items with
          | true, some (others, inner) =>
              (changeAt throughLists change key inner).map fun changed =>
                entries.put part (.list (others ++ [.table changed]))
          | _, _ => none
      | some _ => none

def addNew (key : String) (value : Value) (entries : Entries) : Option Entries :=
  match entries.get? key with
  | some _ => none
  | none => some (entries.put key value)

def addToList (key : String) (entries : Entries) : Option Entries :=
  match entries.get? key with
  | none => some (entries.put key (.list [.table []]))
  | some (.list items) => some (entries.put key (.list (items ++ [.table []])))
  | some _ => none

structure Inline where
  entries : Entries
  closed : List Key

def isComposite : Value → Bool
  | .list _ | .table _ => true
  | _ => false

def covers (keys : List Key) (key : Key) : Bool := keys.any fun other => other.isPrefixOf key

def Inline.add (inline : Inline) (key : Key) (value : Value) : Option Inline := do
  if covers inline.closed key then none
  let stem ← key.getLast?
  let entries ← changeAt false (addNew stem value) key.dropLast inline.entries
  some ⟨entries, if isComposite value then key :: inline.closed else inline.closed⟩

mutual

-- Reads a value. Each part of a composite value takes one of the tries.
def readValue : Nat → List Char → Except Fault (Value × List Char)
  | 0, _ => .error .malformed
  | tries + 1, chars =>
      match readString? chars with
      | some result => required (result.map fun (content, left) => (.text content, left))
      | none =>
          match after? "true" chars with
          | some left => .ok (.bool true, left)
          | none =>
              match after? "false" chars with
              | some left => .ok (.bool false, left)
              | none =>
                  match chars with
                  | '[' :: rest => do
                      let start ← required (skipArrayFiller rest)
                      readItems tries start #[]
                  | '\x7b' :: rest => readMembers tries (skipSpace rest) true ⟨[], []⟩
                  | _ =>
                      match readMoment? chars with
                      | some result => required result
                      | none =>
                          match readNumber? chars with
                          | some result => result
                          | none => required (readSpecialFloat chars)

def readItems : Nat → List Char → Array Value → Except Fault (Value × List Char)
  | 0, _, _ => .error .malformed
  | tries + 1, chars, found =>
      match chars with
      | ']' :: left => .ok (.list found.toList, left)
      | _ => do
          let (value, left) ← readValue tries chars
          match ← required (skipArrayFiller left) with
          | ']' :: left => .ok (.list (found.push value).toList, left)
          | ',' :: left => readItems tries (← required (skipArrayFiller left)) (found.push value)
          | _ => .error .malformed

-- Reads the members of an inline table; only an empty table may end where a member may stand.
def readMembers : Nat → List Char → Bool → Inline → Except Fault (Value × List Char)
  | 0, _, _, _ => .error .malformed
  | tries + 1, chars, atStart, inline =>
      match atStart, chars with
      | true, '\x7d' :: left => .ok (.table [], left)
      | _, _ => do
          let (key, left) ← required (readKey chars)
          let left ← required (after? "=" left)
          let (value, left) ← readValue tries (skipSpace left)
          let inline ← required (inline.add key value)
          match skipSpace left with
          | '\x7d' :: left => .ok (.table inline.entries, left)
          | ',' :: left => readMembers tries (skipSpace left) false inline
          | _ => .error .malformed

end

structure Document where
  data : Entries
  header : Key
  -- Tables that a header must not open again.
  opened : List Key
  -- Tables that will be in `opened` from the next header on.
  pending : List Key
  -- Values that must not be extended.
  closed : List Key

namespace Document

def empty : Document := ⟨[], [], [], [], []⟩

def passed (header key : Key) : List Key :=
  (List.range' 1 (key.length - 1)).map fun length => header ++ key.take length

def addPair (document : Document) (key : Key) (value : Value) : Option Document := do
  let stem ← key.getLast?
  let parent := document.header ++ key.dropLast
  let tables := passed document.header key
  if tables.any document.opened.contains || covers document.closed parent then none
  let data ← changeAt true (addNew stem value) parent document.data
  let closed :=
    if isComposite value then (document.header ++ key) :: document.closed else document.closed
  some { document with data, closed, pending := tables ++ document.pending }

def settle (document : Document) : Document :=
  { document with opened := document.pending ++ document.opened, pending := [] }

def openTable (document : Document) (key : Key) : Option Document := do
  if document.opened.contains key || covers document.closed key then none
  let data ← changeAt true some key document.data
  some { document with data, header := key, opened := key :: document.opened }

def openListTable (document : Document) (key : Key) : Option Document := do
  if covers document.closed key then none
  let stem ← key.getLast?
  let outside (keys : List Key) : List Key := keys.filter fun other => !key.isPrefixOf other
  let data ← changeAt true (addToList stem) key.dropLast document.data
  some
    { document with
      data, header := key, opened := key :: outside document.opened
      closed := outside document.closed }

end Document

def readHeader (document : Document) (chars : List Char) : Option (Document × List Char) :=
  match chars with
  | '[' :: '[' :: rest => do
      let (key, left) ← readKey (skipSpace rest)
      let left ← after? "]]" left
      some (← document.settle.openListTable key, left)
  | _ => do
      let (key, left) ← readKey (skipSpace (chars.drop 1))
      let left ← after? "]" left
      some (← document.settle.openTable key, left)

def readPair (budget : Nat) (document : Document) (chars : List Char) :
    Except Fault (Document × List Char) := do
  let (key, left) ← required (readKey chars)
  let left ← required (after? "=" left)
  let (value, left) ← readValue budget (skipSpace left)
  return (← required (document.addPair key value), left)

def readStatement (budget : Nat) (document : Document) (chars : List Char) :
    Except Fault (Document × List Char) :=
  match chars with
  | '#' :: _ => .ok (document, chars)
  | '[' :: _ => required (readHeader document chars)
  | _ => readPair budget document chars

def readStatements (budget : Nat) : Nat → Document → List Char → Except Fault Document
  | 0, _, _ => .error .malformed
  | tries + 1, document, chars =>
      match skipSpace chars with
      | [] => .ok document
      | '\n' :: rest => readStatements budget tries document rest
      | start => do
          let (document, left) ← readStatement budget document start
          match ← required (skipComment (skipSpace left)) with
          | [] => .ok document
          | '\n' :: rest => readStatements budget tries document rest
          | _ => .error .malformed

def joinLineEnds : List Char → List Char
  | [] => []
  | '\r' :: '\n' :: rest => '\n' :: joinLineEnds rest
  | c :: rest => c :: joinLineEnds rest

-- Enough tries for every value in a text: each of its characters takes at most two of them.
def valueBudget (chars : List Char) : Nat := 2 * chars.length + 2

def parse (text : String) : Except Fault Entries :=
  let chars := joinLineEnds text.toList
  (readStatements (valueBudget chars) (chars.length + 1) .empty chars).map (·.data)

end ScriptTyping.Toml
