import ScriptTyping.Path
import ScriptTyping.Settings.Check
import ScriptTyping.Text.Blank
import ScriptTyping.Text.LetterCase

set_option autoImplicit false

namespace ScriptTyping

structure Settings where
  outRoot : String
  skipDirs : List String
  extensions : List String
  trace : Bool
deriving DecidableEq

namespace Settings

def defaultOutRoot : String := "tsConverter"

def defaultSkipDirs : List String := ["node_modules", "public", "web_pack", ".erb"]

def defaultExtensions : List String := [".js", ".jsx", ".ts", ".tsx"]

def plainName (given : String) : Except ValueProblem String :=
  let name := strip given
  let chars := name.toList
  if chars.isEmpty || chars.contains '/' || chars.contains '\\' || name == "." || name == ".." then
    .error (.notPlainName given)
  else .ok name

def normalExtension (extension : String) : String :=
  match extension.toList with
  | '.' :: _ => lower extension
  | _ => "." ++ lower extension

def checkOutRoot (value : Value) : Except ValueProblem String :=
  match value.toText with
  | .ok given => plainName given
  | .error problem => .error problem

def ofFields (fields : Entries) : Checked Settings :=
  let outRoot := Checked.field fields "out_root" defaultOutRoot (Checked.one "out_root" checkOutRoot)
  let skipDirs := Checked.field fields "skip_dirs" defaultSkipDirs
    (Checked.listOf "skip_dirs" Value.toText)
  let extensions := Checked.field fields "source_extensions" defaultExtensions fun value =>
    (Checked.listOf "source_extensions" Value.toText value).map (List.map normalExtension)
  let trace := Checked.field fields "trace" false (Checked.one "trace" Value.toBool)
  (Checked.both outRoot (Checked.both skipDirs (Checked.both extensions trace))).map
    fun (outRoot, skipDirs, extensions, trace) => { outRoot, skipDirs, extensions, trace }

-- The segments that are left out. The output directory is one of them, so that a run never converts
-- what a run before it has written.
def skipped (settings : Settings) : List String :=
  (settings.skipDirs ++ [settings.outRoot]).eraseDups

def skips (settings : Settings) (segment : String) : Bool :=
  settings.skipDirs.contains segment || segment == settings.outRoot

def accepts (settings : Settings) (path : Path) : Bool :=
  settings.extensions.contains (lower path.extension)

end Settings

end ScriptTyping
