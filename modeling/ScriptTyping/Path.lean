set_option autoImplicit false

namespace ScriptTyping

structure Path where
  -- The slashes at the beginning: none, one or two.
  anchor : String
  parts : List String
deriving DecidableEq, Inhabited

namespace Path

def splitSlash : List Char → List (List Char)
  | [] => [[]]
  | c :: rest =>
      if c = '/' then [] :: splitSlash rest
      else
        match splitSlash rest with
        | [] => [[c]]
        | part :: parts => (c :: part) :: parts

def anchorOf (chars : List Char) : String :=
  match (chars.takeWhile (· == '/')).length with
  | 0 => ""
  | 2 => "//"
  | _ => "/"

def ofText (text : String) : Path :=
  let chars := text.toList
  let parts := (splitSlash chars).filter fun part => !part.isEmpty && part != ['.']
  ⟨anchorOf chars, parts.map String.ofList⟩

def toText (path : Path) : String :=
  if path.anchor.isEmpty && path.parts.isEmpty then "."
  else path.anchor ++ String.intercalate "/" path.parts

def hasNull (path : Path) : Bool := path.parts.any fun part => part.toList.contains '\x00'

def name (path : Path) : String := path.parts.getLastD ""

def parent (path : Path) : Path := { path with parts := path.parts.dropLast }

def child (path : Path) (name : String) : Path := { path with parts := path.parts ++ [name] }

def append (path relative : Path) : Path := { path with parts := path.parts ++ relative.parts }

def relativeTo? (path directory : Path) : Option Path :=
  if path.anchor = directory.anchor ∧ directory.parts.isPrefixOf path.parts = true then
    some ⟨"", path.parts.drop directory.parts.length⟩
  else none

theorem relativeTo?_append (directory relative : Path) (plain : relative.anchor = "") :
    (directory.append relative).relativeTo? directory = some relative := by
  cases relative with
  | mk anchor parts =>
      simp only at plain
      simp [relativeTo?, append, plain]

-- Splits a name into its stem and its extension: the last dot opens an extension, unless it is the
-- first or the last character.
def splitName (name : List Char) : List Char × List Char :=
  let after := name.reverse.takeWhile (· != '.')
  let before := name.take (name.length - after.length - 1)
  if after.isEmpty || after.length = name.length || before.isEmpty then (name, [])
  else (before, '.' :: after.reverse)

def extension (path : Path) : String := String.ofList (splitName path.name.toList).2

def isExtension (extension : String) : Bool :=
  match extension.toList with
  | [] => true
  | ['.'] => false
  | c :: rest => c == '.' && !rest.contains '/'

def withExtension? (path : Path) (extension : String) : Option Path :=
  if !isExtension extension || path.parts.isEmpty then none
  else
    let stem := String.ofList (splitName path.name.toList).1
    some { path with parts := path.parts.dropLast ++ [stem ++ extension] }

def withEnding (path : Path) (ending : String) : Path :=
  { path with parts := path.parts.dropLast ++ [path.name ++ ending] }

end Path

end ScriptTyping
