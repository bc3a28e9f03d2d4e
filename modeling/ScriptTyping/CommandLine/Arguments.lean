import ScriptTyping.Text.Digit
import ScriptTyping.Text.Quoted

set_option autoImplicit false

namespace ScriptTyping.CommandLine

inductive Flag where
  | help
  | version
  | outRoot
  | skip
  | jsonTrace
deriving DecidableEq

def spellings : List (String × Flag) :=
  [("-h", .help), ("--help", .help), ("--version", .version), ("--out-root", .outRoot),
   ("--skip", .skip), ("--json-trace", .jsonTrace)]

def Flag.shown (flag : Flag) : String :=
  String.intercalate "/" ((spellings.filter fun entry => entry.2 == flag).map (·.1))

def flag? (spelling : String) : Option Flag :=
  (spellings.find? fun entry => entry.1 == spelling).map (·.2)

inductive Word where
  | value
  | separator
  | option (flag : Flag) (carried : Option String)
  | helpWith (text : List Char)
  | unknownOption

inductive Misuse where
  | ambiguous (word : String) (candidates : List String)
  | expectedOne (flag : Flag)
  | expectedSome (flag : Flag)
  | ignoredValue (flag : Flag) (value : String)
  | unrecognized (words : List String)

def Misuse.message : Misuse → String
  | ambiguous word candidates =>
      "ambiguous option: " ++ word ++ " could match " ++ String.intercalate ", " candidates
  | expectedOne flag => "argument " ++ flag.shown ++ ": expected one argument"
  | expectedSome flag => "argument " ++ flag.shown ++ ": expected at least one argument"
  | ignoredValue flag value =>
      "argument " ++ flag.shown ++ ": ignored explicit argument " ++ quoted value
  | unrecognized words => "unrecognized arguments: " ++ String.intercalate " " words

def splitEquals (word : List Char) : List Char × Option (List Char) :=
  let before := word.takeWhile (· != '=')
  match word.drop before.length with
  | [] => (before, none)
  | _ :: after => (before, some after)

-- A minus sign and a number, as a whole or with a point; a line end may follow.
def isNegativeNumber (word : List Char) : Bool :=
  let word := if word.getLast? == some '\n' then word.dropLast else word
  match word with
  | '-' :: number =>
      let whole := number.takeWhile isDecimalDigit
      match number.drop whole.length with
      | [] => !whole.isEmpty
      | '.' :: fraction => !fraction.isEmpty && fraction.all isDecimalDigit
      | _ => false
  | _ => false

def classifyOther (word : List Char) : Word :=
  if isNegativeNumber word || word.contains ' ' then .value else .unknownOption

def classifyLong (word : List Char) : Except Misuse Word :=
  let (start, carried) := splitEquals word
  match spellings.filter fun entry => start.isPrefixOf entry.1.toList with
  | [] => .ok (classifyOther word)
  | [entry] => .ok (.option entry.2 (carried.map String.ofList))
  | entries => .error (.ambiguous (String.ofList word) (entries.map (·.1)))

def classify (word : String) : Except Misuse Word :=
  let chars := word.toList
  match chars with
  | '-' :: second :: rest =>
      match flag? word, splitEquals chars with
      | some flag, _ => .ok (.option flag none)
      | none, (start, some carried) =>
          match flag? (String.ofList start) with
          | some flag =>
              if second = 'h' && !carried.isEmpty then .ok (.helpWith carried)
              else .ok (.option flag (some (String.ofList carried)))
          | none => other chars second rest
      | none, _ => other chars second rest
  | _ => .ok .value
where
  other (chars : List Char) (second : Char) (rest : List Char) : Except Misuse Word :=
    if second = '-' then classifyLong chars
    else if second = 'h' then .ok (.helpWith rest)
    else .ok (classifyOther chars)

def classifyAll : List String → Except Misuse (List (String × Word))
  | [] => .ok []
  | word :: rest =>
      if word = "--" then .ok ((word, .separator) :: rest.map fun other => (other, .value))
      else
        match classify word with
        | .error misuse => .error misuse
        | .ok kind => (classifyAll rest).map fun others => (word, kind) :: others

structure Arguments where
  path : Option String
  outRoot : Option String
  skip : Option (List String)
  jsonTrace : Bool

inductive Invocation where
  | convert (arguments : Arguments)
  | help
  | version
  | misuse (misuse : Misuse)

structure Reading where
  arguments : Arguments
  pathDone : Bool
  extras : List String

def Reading.start : Reading := ⟨⟨none, none, none, false⟩, false, []⟩

def Reading.extra (reading : Reading) (word : String) : Reading :=
  { reading with extras := reading.extras ++ [word] }

def Reading.setPath (reading : Reading) (path : Option String) : Reading :=
  { reading with arguments := { reading.arguments with path }, pathDone := true }

def Reading.finish (reading : Reading) : Invocation :=
  if reading.extras.isEmpty then .convert reading.arguments
  else .misuse (.unrecognized reading.extras)

-- The text after the short option for help may repeat that option, but nothing else may follow.
def readHelpWith (text : List Char) : Invocation :=
  match text.dropWhile (· == 'h') with
  | [] => .help
  | rest => .misuse (.ignoredValue .help (String.ofList rest))

-- The values that an option carries in its own word. A separator there counts as no value.
def carriedValues (carried : String) : List String := if carried = "--" then [] else [carried]

def isValue : String × Word → Bool
  | (_, .value) => true
  | _ => false

-- A separator directly after the path does not count.
def dropSeparator : List (String × Word) → List (String × Word)
  | (_, .separator) :: rest => rest
  | words => words

theorem length_dropSeparator (words : List (String × Word)) :
    (dropSeparator words).length ≤ words.length := by
  unfold dropSeparator
  split <;> simp

def read (words : List (String × Word)) (reading : Reading) : Invocation :=
  match words with
  | [] => reading.finish
  | (text, .value) :: rest =>
      if reading.pathDone then read rest (reading.extra text)
      else read (dropSeparator rest) (reading.setPath (some text))
  | (text, .separator) :: rest =>
      if reading.pathDone then read rest (reading.extra text)
      else
        match rest with
        | [] => (reading.setPath none).finish
        | (path, _) :: others => read others (reading.setPath (some path))
  | (text, .unknownOption) :: rest => read rest (reading.extra text)
  | (_, .helpWith text) :: _ => readHelpWith text
  | (_, .option flag (some carried)) :: rest =>
      let arguments := reading.arguments
      match flag with
      | .outRoot =>
          let outRoot := (carriedValues carried).head?
          read rest { reading with arguments := { arguments with outRoot } }
      | .skip =>
          let skip := some (carriedValues carried)
          read rest { reading with arguments := { arguments with skip } }
      | _ => .misuse (.ignoredValue flag carried)
  | (_, .option flag none) :: rest =>
      let arguments := reading.arguments
      match flag with
      | .help => .help
      | .version => .version
      | .jsonTrace => read rest { reading with arguments := { arguments with jsonTrace := true } }
      | .outRoot =>
          match rest with
          | (value, .value) :: others =>
              read others { reading with arguments := { arguments with outRoot := some value } }
          | _ => .misuse (.expectedOne .outRoot)
      | .skip =>
          let values := rest.takeWhile isValue
          if values.isEmpty then .misuse (.expectedSome .skip)
          else
            let skip := some (values.map (·.1))
            read (rest.dropWhile isValue) { reading with arguments := { arguments with skip } }
termination_by words.length
decreasing_by
  all_goals simp only [List.length_cons]
  all_goals first
    | omega
    | exact Nat.lt_succ_of_le (length_dropSeparator _)
    | exact Nat.lt_succ_of_le (List.dropWhile_suffix _).length_le

def invocation (words : List String) : Invocation :=
  match classifyAll words with
  | .error misuse => .misuse misuse
  | .ok classified => read classified .start

end ScriptTyping.CommandLine
