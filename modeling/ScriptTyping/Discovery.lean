import ScriptTyping.FileSystem
import ScriptTyping.Settings.Basic

set_option autoImplicit false

namespace ScriptTyping

inductive Unsupported where
  | extension (found : String)
  | missing
  | special
deriving DecidableEq

def Unsupported.reason : Unsupported → String
  | extension found => "unsupported extension '" ++ found ++ "'"
  | missing => "no such file or directory"
  | special => "not a regular file or directory"

def aboutPath (path : Path) (reason : String) : String := path.toText ++ ": " ++ reason

inductive ScopeFault where
  | unsupported (reason : Unsupported)
  | files (fault : FileFault)

inductive SearchFault where
  | outsideRoot
  | files (fault : FileFault)

structure Scope where
  input : Path
  root : Path
  settings : Settings

namespace Scope

def resolve (files : FileSystem) (input : Path) (settings : Settings) :
    Except ScopeFault Scope :=
  match files.look input with
  | .error fault => .error (.files fault)
  | .ok (some .directory) => .ok ⟨input, input, settings⟩
  | .ok (some (.file _)) =>
      if settings.accepts input then .ok ⟨input, input.parent, settings⟩
      else .error (.unsupported (.extension input.extension))
  | .ok (some .special) => .error (.unsupported .special)
  | .ok none => .error (.unsupported .missing)

def outDir (scope : Scope) : Path := scope.root.child scope.settings.outRoot

-- Whether a path has a segment that is left out; nothing for a path that is not below the root.
def isSkipped? (scope : Scope) (path : Path) : Option Bool :=
  (path.relativeTo? scope.root).map fun relative => relative.parts.any scope.settings.skips

-- Where the output for a source goes; nothing if the source is not below the root or the extension
-- cannot be given.
def outputPath? (scope : Scope) (source : Path) (extension : String) : Option Path :=
  (source.relativeTo? scope.root).bind fun relative =>
    (scope.outDir.append relative).withExtension? extension

inductive Visit where
  | pass
  | descend (entries : List Path)
  | take

def entriesOf (files : FileSystem) (directory : Path) : List Path :=
  (files.list directory).map directory.child

def visit (scope : Scope) (files : FileSystem) (entry : Path) : Except SearchFault Visit :=
  match scope.isSkipped? entry with
  | none => .error .outsideRoot
  | some true => .ok .pass
  | some false =>
      match files.look entry with
      | .error fault => .error (.files fault)
      | .ok (some .directory) => .ok (.descend (entriesOf files entry))
      | .ok (some (.file _)) => .ok (if scope.settings.accepts entry then .take else .pass)
      | .ok _ => .ok .pass

def sourcesFrom (scope : Scope) (files : FileSystem) :
    Nat → List Path → Array Path → Except SearchFault (Array Path)
  | 0, _, found => .ok found
  | _ + 1, [], found => .ok found
  | steps + 1, entry :: rest, found =>
      match scope.visit files entry with
      | .error fault => .error fault
      | .ok .pass => sourcesFrom scope files steps rest found
      | .ok (.descend entries) => sourcesFrom scope files steps (entries ++ rest) found
      | .ok .take => sourcesFrom scope files steps rest (found.push entry)

-- Each entry is looked at once.
def stepBudget (files : FileSystem) : Nat := files.entries.length + 1

def startEntries (scope : Scope) (files : FileSystem) : List Path := entriesOf files scope.input

def sources (scope : Scope) (files : FileSystem) : Except SearchFault (List Path) :=
  match files.isDirectory scope.input with
  | .error fault => .error (.files fault)
  | .ok true =>
      (sourcesFrom scope files (stepBudget files) (scope.startEntries files) #[]).map Array.toList
  | .ok false => .ok [scope.input]

end Scope

end ScriptTyping
