import ScriptTyping.FileSystem
import ScriptTyping.Settings.Basic
import ScriptTyping.Text.Utf8
import ScriptTyping.Toml.Document

set_option autoImplicit false

namespace ScriptTyping

structure Overrides where
  outRoot : Option String
  skipDirs : List String
  trace : Option Bool

namespace Settings

inductive LoadFault where
  | files (fault : FileFault)
  | undecodable (fault : Utf8.Fault)
  | longNumber (digits : Nat)
  | noTable
  | notListable
  | invalid (issues : List Issue)

def fileName : String := "pyproject.toml"

-- The location that a path leads to by its text alone.
def resolve : Location → List String → Location
  | here, [] => here
  | here, part :: rest => resolve (if part == ".." then here.dropLast else here ++ [part]) rest

def resolvePath (files : FileSystem) (path : Path) : Except FileFault Location :=
  if path.hasNull then .error .nullCharacter
  else .ok (resolve (files.startOf path) path.parts)

def pathTo (location : Location) : Path := ⟨"/", location⟩

def fileIn (files : FileSystem) (directory : Location) : Except FileFault (Option ByteArray) := do
  let path := (pathTo directory).child fileName
  match ← files.look path with
  | some (.file _) => return some (← files.read path)
  | _ => return none

def nearestFile (files : FileSystem) : Nat → Location → Except FileFault (Option ByteArray)
  | 0, here => fileIn files here
  | above + 1, here =>
      match fileIn files here with
      | .error fault => .error fault
      | .ok (some bytes) => .ok (some bytes)
      | .ok none =>
          if here.isEmpty then .ok none else nearestFile files above here.dropLast

def searchFile (files : FileSystem) (start : Path) : Except FileFault (Option ByteArray) :=
  match resolvePath files start with
  | .error fault => .error fault
  | .ok here => nearestFile files here.length here

def tableOf : Option Value → Except LoadFault Entries
  | none => .ok []
  | some (.table entries) => .ok entries
  | some _ => .error .noTable

def section? (text : String) : Except LoadFault Entries :=
  match Toml.parse text with
  | .error .malformed => .ok []
  | .error (.longNumber digits) => .error (.longNumber digits)
  | .ok document => do
      let tools ← tableOf (document.get? "tool")
      tableOf (tools.get? "ts_converter")

def findSection (files : FileSystem) (start : Path) : Except LoadFault Entries :=
  match searchFile files start with
  | .error fault => .error (.files fault)
  | .ok none => .ok []
  | .ok (some bytes) =>
      match Utf8.decode bytes with
      | .error fault => .error (.undecodable fault)
      | .ok text => section? text

-- A value as a list: a text gives its characters, a table its keys.
def listed : Value → Except LoadFault (List Value)
  | .list items => .ok items
  | .text value => .ok (value.toList.map fun c => .text c.toString)
  | .table entries => .ok (entries.map fun entry => .text entry.1)
  | _ => .error .notListable

def listSetting (fields : Entries) (key : String) (default : List String) :
    Except LoadFault (List Value) :=
  match fields.get? key with
  | some value => listed value
  | none => .ok (default.map .text)

def isText (text : String) : Value → Bool
  | .text value => value == text
  | _ => false

def addSegments (segments : List String) (values : List Value) : List Value :=
  segments.foldl
    (fun found segment => if found.any (isText segment) then found else found ++ [.text segment])
    values

def chooseOutRoot (fields : Entries) (override : Option String) : Value :=
  match override with
  | some given =>
      if given.isEmpty then (fields.get? "out_root").getD (.text defaultOutRoot) else .text given
  | none => (fields.get? "out_root").getD (.text defaultOutRoot)

def ofSection (fields : Entries) (overrides : Overrides) : Except LoadFault Settings := do
  let skipDirs ← listSetting fields "skip_dirs" defaultSkipDirs
  let extensions ← listSetting fields "source_extensions" defaultExtensions
  let trace := match overrides.trace with
    | some trace => .bool trace
    | none => (fields.get? "trace").getD (.bool false)
  let checked := ofFields
    [("out_root", chooseOutRoot fields overrides.outRoot),
     ("skip_dirs", .list (addSegments overrides.skipDirs skipDirs)),
     ("source_extensions", .list extensions),
     ("trace", trace)]
  checked.mapError .invalid

def load (files : FileSystem) (start : Path) (overrides : Overrides) :
    Except LoadFault Settings := do
  let fields ← findSection files start
  ofSection fields overrides

end Settings

end ScriptTyping
