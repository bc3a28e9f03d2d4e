import ScriptTyping.Settings.Value
import ScriptTyping.Text.Hex

set_option autoImplicit false

namespace ScriptTyping.Toml

inductive Fault where
  | malformed
  | longNumber (digits : Nat)
deriving DecidableEq

def required {α : Type} : Option α → Except Fault α
  | some found => .ok found
  | none => .error .malformed

abbrev Reader (α : Type) := List Char → Option (α × List Char)

def isSpace (c : Char) : Bool := c == ' ' || c == '\t'

def skipSpace (chars : List Char) : List Char := chars.dropWhile isSpace

-- Control characters may stand in no comment and no string; a tab may.
def isControl (c : Char) : Bool := (c.toNat < 32 && c != '\t') || c.toNat == 127

def isBareKeyChar (c : Char) : Bool :=
  c.isAlphanum || c == '-' || c == '_'

def after? (expected : String) (chars : List Char) : Option (List Char) :=
  if expected.toList.isPrefixOf chars then some (chars.drop expected.length) else none

def skipComment (chars : List Char) : Option (List Char) :=
  match chars with
  | '#' :: rest =>
      if (rest.takeWhile (· != '\n')).any isControl then none
      else some (rest.dropWhile (· != '\n'))
  | _ => some chars

-- Skips blanks, line ends and comments. The flag is set inside a comment, which goes to the end of
-- its line.
def skipFiller : Bool → List Char → Option (List Char)
  | _, [] => some []
  | true, c :: rest =>
      if c == '\n' then skipFiller false rest
      else if isControl c then none
      else skipFiller true rest
  | false, c :: rest =>
      if c == '#' then skipFiller true rest
      else if isSpace c || c == '\n' then skipFiller false rest
      else some (c :: rest)

def skipArrayFiller (chars : List Char) : Option (List Char) := skipFiller false chars

def readCodePoint (width : Nat) : Reader Char := fun chars => do
  let digits := chars.take width
  if digits.length ≠ width then none
  else
    let values ← digits.mapM Hex.value?
    let code := values.foldl (fun total digit => total * 16 + digit) 0
    if code.isValidChar then some (Char.ofNat code, chars.drop width) else none

def skipEscapedLineEnd (chars : List Char) : Option (List Char) :=
  match skipSpace chars with
  | [] => some []
  | '\n' :: rest => some (rest.dropWhile fun c => isSpace c || c == '\n')
  | _ => none

def readEscape (multiline : Bool) : Reader (List Char) := fun chars =>
  match chars with
  | 'b' :: rest => some (['\x08'], rest)
  | 't' :: rest => some (['\t'], rest)
  | 'n' :: rest => some (['\n'], rest)
  | 'f' :: rest => some (['\x0c'], rest)
  | 'r' :: rest => some (['\r'], rest)
  | '"' :: rest => some (['"'], rest)
  | '\\' :: rest => some (['\\'], rest)
  | 'u' :: rest => (readCodePoint 4 rest).map fun (c, left) => ([c], left)
  | 'U' :: rest => (readCodePoint 8 rest).map fun (c, left) => ([c], left)
  | c :: _ =>
      if multiline && (isSpace c || c == '\n') then
        (skipEscapedLineEnd chars).map fun left => ([], left)
      else none
  | [] => none

def readBasic (multiline : Bool) : Nat → List Char → Array Char → Option (String × List Char)
  | 0, _, _ => none
  | tries + 1, chars, found =>
      match chars with
      | [] => none
      | '"' :: rest =>
          if !multiline then some (String.ofList found.toList, rest)
          else
            match after? "\"\"" rest with
            | some left => some (String.ofList found.toList, left)
            | none => readBasic multiline tries rest (found.push '"')
      | '\\' :: rest =>
          match readEscape multiline rest with
          | some (meant, left) => readBasic multiline tries left (found ++ meant.toArray)
          | none => none
      | c :: rest =>
          if isControl c && !(multiline && c == '\n') then none
          else readBasic multiline tries rest (found.push c)

def readLiteral : Reader String := fun chars =>
  let content := chars.takeWhile (· != '\'')
  if content.any isControl then none
  else
    match chars.drop content.length with
    | _ :: left => some (String.ofList content, left)
    | [] => none

def readLiteralLines : List Char → Array Char → Option (String × List Char)
  | [], _ => none
  | c :: rest, found =>
      if "'''".toList.isPrefixOf (c :: rest) then
        some (String.ofList found.toList, rest.drop 2)
      else if isControl c && c != '\n' then none
      else readLiteralLines rest (found.push c)

-- Up to two marks more at the end of a multi-line string belong to its content.
def readExtraMarks (mark : Char) (content : String) (chars : List Char) : String × List Char :=
  let extra := (chars.take 2).takeWhile (· == mark)
  (content ++ String.ofList extra, chars.drop extra.length)

def skipFirstLineEnd : List Char → List Char
  | '\n' :: rest => rest
  | chars => chars

def readLineString? (chars : List Char) : Option (Option (String × List Char)) :=
  match chars with
  | '"' :: rest => some (readBasic false (rest.length + 1) rest #[])
  | '\'' :: rest => some (readLiteral rest)
  | _ => none

def readString? (chars : List Char) : Option (Option (String × List Char)) :=
  match after? "\"\"\"" chars with
  | some rest =>
      let body := skipFirstLineEnd rest
      some ((readBasic true (body.length + 1) body #[]).map fun (content, left) =>
        readExtraMarks '"' content left)
  | none =>
      match after? "'''" chars with
      | some rest =>
          some ((readLiteralLines (skipFirstLineEnd rest) #[]).map fun (content, left) =>
            readExtraMarks '\'' content left)
      | none => readLineString? chars

def readKeyPart : Reader String := fun chars =>
  match readLineString? chars with
  | some result => result
  | none =>
      let bare := chars.takeWhile isBareKeyChar
      if bare.isEmpty then none else some (String.ofList bare, chars.drop bare.length)

def readKeyRest : Nat → List Char → List String → Option (List String × List Char)
  | 0, _, _ => none
  | tries + 1, chars, found =>
      match skipSpace chars with
      | '.' :: rest =>
          match readKeyPart (skipSpace rest) with
          | some (part, left) => readKeyRest tries left (part :: found)
          | none => none
      | left => some (found.reverse, left)

def readKey : Reader (List String) := fun chars => do
  let (first, left) ← readKeyPart chars
  readKeyRest (left.length + 1) left [first]

-- Takes the digits that follow a digit; a single underscore may stand in front of each.
def takeMoreDigits (isDigit : Char → Bool) : List Char → List Char × List Char
  | [] => ([], [])
  | [c] => if isDigit c then ([c], []) else ([], [c])
  | c :: d :: rest =>
      if isDigit c then
        let (digits, left) := takeMoreDigits isDigit (d :: rest)
        (c :: digits, left)
      else if c == '_' && isDigit d then
        let (digits, left) := takeMoreDigits isDigit rest
        (d :: digits, left)
      else ([], c :: d :: rest)

def takeDigits (isDigit : Char → Bool) : List Char → List Char × List Char
  | [] => ([], [])
  | c :: rest =>
      if isDigit c then
        let (digits, left) := takeMoreDigits isDigit rest
        (c :: digits, left)
      else ([], c :: rest)

def numeral (base : Nat) (digits : List Char) : Nat :=
  digits.foldl (fun total c => total * base + (Hex.value? c).getD 0) 0

def digitLimit : Nat := 4300

def wholeNumber (digits : List Char) : Except Fault Nat :=
  if digits.length ≤ digitLimit then .ok (numeral 10 digits)
  else .error (.longNumber digits.length)

def readBased : Reader Value := fun chars =>
  let read (base : Nat) (isDigit : Char → Bool) (rest : List Char) : Option (Value × List Char) :=
    let (digits, left) := takeDigits isDigit rest
    if digits.isEmpty then none else some (.integer (numeral base digits), left)
  match chars with
  | '0' :: 'x' :: rest => read 16 (fun c => (Hex.value? c).isSome) rest
  | '0' :: 'b' :: rest => read 2 (fun c => c == '0' || c == '1') rest
  | '0' :: 'o' :: rest => read 8 (fun c => '0' ≤ c && c ≤ '7') rest
  | _ => none

def readSign : List Char → Bool × List Char
  | '+' :: rest => (false, rest)
  | '-' :: rest => (true, rest)
  | chars => (false, chars)

-- Reads the digits of a whole part: a zero alone, or digits that start with another one.
def readWhole : Reader (List Char) := fun chars =>
  match chars with
  | '0' :: rest => some (['0'], rest)
  | _ =>
      let (digits, left) := takeDigits Char.isDigit chars
      if digits.isEmpty then none else some (digits, left)

def readFraction (chars : List Char) : List Char × List Char :=
  match chars with
  | '.' :: rest =>
      let (digits, left) := takeDigits Char.isDigit rest
      if digits.isEmpty then ([], chars) else (digits, left)
  | _ => ([], chars)

def readExponent (chars : List Char) : Option Int × List Char :=
  match chars with
  | c :: rest =>
      if c == 'e' || c == 'E' then
        let (negative, unsigned) := readSign rest
        let (digits, left) := takeDigits Char.isDigit unsigned
        if digits.isEmpty then (none, chars)
        else
          let size : Int := numeral 10 digits
          (some (if negative then -size else size), left)
      else (none, chars)
  | [] => (none, chars)

-- The float nearest to `digits * 10 ^ exponent`. Exponents that are out of reach for any digits are
-- cut first.
def floatOf (negative : Bool) (digits : Nat) (exponent : Int) (length : Nat) : Float :=
  let bound : Int := length + 400
  let cut := max (-bound) (min bound exponent)
  let size := if cut < 0 then Float.ofScientific digits true cut.natAbs
    else Float.ofScientific digits false cut.toNat
  if negative then -size else size

-- Reads a decimal number, if one comes first: a whole number, or a float when it has a fraction or
-- an exponent.
def readDecimal? (chars : List Char) : Option (Except Fault (Value × List Char)) := do
  let (negative, unsigned) := readSign chars
  let (whole, left) ← readWhole unsigned
  let (fraction, left) := readFraction left
  let (exponent, left) := readExponent left
  if fraction.isEmpty && exponent.isNone then
    some ((wholeNumber whole).map fun size =>
      (.integer (if negative then -(size : Int) else size), left))
  else
    let digits := whole ++ fraction
    let shift : Int := exponent.getD 0 - fraction.length
    some (.ok (.float (floatOf negative (numeral 10 digits) shift digits.length), left))

def readNumber? (chars : List Char) : Option (Except Fault (Value × List Char)) :=
  match readBased chars with
  | some result => some (.ok result)
  | none => readDecimal? chars

def readSpecialFloat : Reader Value := fun chars =>
  let (negative, unsigned) := readSign chars
  match after? "inf" unsigned with
  | some left => some (.float (if negative then -(1.0 / 0.0) else 1.0 / 0.0), left)
  | none => (after? "nan" unsigned).map fun left => (.float (0.0 / 0.0), left)

def readTwo (low high : Nat) : Reader Nat := fun chars =>
  match chars with
  | a :: b :: rest =>
      if a.isDigit && b.isDigit then
        let value := numeral 10 [a, b]
        if low ≤ value ∧ value ≤ high then some (value, rest) else none
      else none
  | _ => none

def readChar (accepted : Char → Bool) : Reader Char := fun chars =>
  match chars with
  | c :: rest => if accepted c then some (c, rest) else none
  | [] => none

def skipSecondFraction (chars : List Char) : List Char :=
  match chars with
  | '.' :: d :: rest => if d.isDigit then rest.dropWhile Char.isDigit else chars
  | _ => chars

def readTime : Reader Unit := fun chars => do
  let (_, left) ← readTwo 0 23 chars
  let (_, left) ← readChar (· == ':') left
  let (_, left) ← readTwo 0 59 left
  let (_, left) ← readChar (· == ':') left
  let (_, left) ← readTwo 0 59 left
  some ((), skipSecondFraction left)

def skipOffset (chars : List Char) : List Char :=
  match chars with
  | [] => []
  | c :: rest =>
      if c == 'Z' || c == 'z' then rest
      else
        let offset := do
          let (_, left) ← readChar (fun c => c == '+' || c == '-') chars
          let (_, left) ← readTwo 0 23 left
          let (_, left) ← readChar (· == ':') left
          let (_, left) ← readTwo 0 59 left
          some left
        offset.getD chars

def isLeapYear (year : Nat) : Bool := year % 4 == 0 && (year % 100 != 0 || year % 400 == 0)

def daysIn (year month : Nat) : Nat :=
  match month with
  | 2 => if isLeapYear year then 29 else 28
  | 4 | 6 | 9 | 11 => 30
  | _ => 31

def readDateParts : Reader (Nat × Nat × Nat) := fun chars => do
  let (century, left) ← readTwo 0 99 chars
  let (years, left) ← readTwo 0 99 left
  let (_, left) ← readChar (· == '-') left
  let (month, left) ← readTwo 1 12 left
  let (_, left) ← readChar (· == '-') left
  let (day, left) ← readTwo 1 31 left
  some ((century * 100 + years, month, day), left)

def skipTimeOfDate (chars : List Char) : List Char :=
  match readChar (fun c => c == 'T' || c == 't' || c == ' ') chars with
  | none => chars
  | some (_, rest) =>
      match readTime rest with
      | none => chars
      | some (_, left) => skipOffset left

def readMoment? (chars : List Char) : Option (Option (Value × List Char)) :=
  let written (left : List Char) : Value :=
    .moment (String.ofList (chars.take (chars.length - left.length)))
  match readDateParts chars with
  | some ((year, month, day), rest) =>
      let left := skipTimeOfDate rest
      if year = 0 ∨ daysIn year month < day then some none else some (some (written left, left))
  | none => (readTime chars).map fun (_, left) => some (written left, left)

end ScriptTyping.Toml
