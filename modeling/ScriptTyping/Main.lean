import ScriptTyping.CommandLine.Report
import ScriptTyping.CommandLine.Run
import ScriptTyping.Parse.Rows

set_option autoImplicit false

-- The files that a run may see are named on standard input, one on a line; a name that ends in a
-- slash is a directory. Each name is taken for that of a file of its own, and nothing is refused. The
-- parse of a source stands beside it, in a file with the ending .parse.

namespace ScriptTyping.Command

partial def readNames (input : IO.FS.Stream) (names : Array String) : IO (Array String) := do
  let line ← input.getLine
  let name := (line.dropEndWhile fun c => c == '\n' || c == '\r').toString
  if name.isEmpty then return names else readNames input (names.push name)

def locationOf (files : FileSystem) (name : String) : Location :=
  let path := Path.ofText name
  Settings.resolve (files.startOf path) path.parts

def startIn (home : Location) : FileSystem :=
  FileSystem.addAbove { entries := [], volume := { home } } (home ++ [Settings.fileName])

def readFiles (home : Location) (names : Array String) : IO FileSystem :=
  names.foldlM
    (fun files name => do
      if name.endsWith "/" then return files.add (locationOf files name) .directory
      else return files.add (locationOf files name) (.file (← IO.FS.readBinFile name)))
    (startIn home)

def readText? (name : String) : IO (Option String) :=
  tryCatch (some <$> IO.FS.readFile name) fun _ => return none

def readParse? (name : String) : IO (Option (String × ParseTree)) := do
  match ← readText? (name ++ ".parse") with
  | none => return none
  | some rows =>
      let bytes ← IO.FS.readBinFile name
      match Batch.sourceText bytes, Rows.tree? rows with
      | .ok source, some tree => return some (source, tree)
      | _, _ => return none

def grammarOf (parses : Array (String × ParseTree)) : Grammar := fun source =>
  match parses.find? fun entry => entry.1 == source with
  | some entry => entry.2
  | none => default

def writeFiles (changes : List (Location × ByteArray)) : IO Unit :=
  changes.forM fun (location, bytes) => do
    let path := Settings.pathTo location
    IO.FS.createDirAll path.parent.toText
    IO.FS.writeBinFile path.toText bytes

end ScriptTyping.Command

open ScriptTyping ScriptTyping.Command in
def main (words : List String) : IO UInt32 := do
  let names ← readNames (← IO.getStdin) #[]
  let home := (Path.ofText (← IO.currentDir).toString).parts
  let files ← readFiles home names
  let parses ← names.filterMapM readParse?
  let effect := CommandLine.run (grammarOf parses) files words
  IO.print effect.standardOutput
  IO.eprint effect.standardError
  effect.run.notices.forM fun notice => notice.lines.forM IO.println
  writeFiles (effect.run.files.changesSince files)
  match effect.run.ending with
  | .exit code => return code.toUInt32
  | .fault fault =>
      IO.eprintln fault.message
      return 1
