import ScriptTyping.Batch
import ScriptTyping.CommandLine.Arguments
import ScriptTyping.CommandLine.Usage

set_option autoImplicit false

namespace ScriptTyping.CommandLine

structure Effect where
  run : Batch.Run
  standardOutput : String
  standardError : String

def Effect.onlyText (files : FileSystem) (standardOutput standardError : String) (code : Nat) :
    Effect :=
  ⟨⟨files, #[], .exit code⟩, standardOutput, standardError⟩

def Arguments.request (arguments : Arguments) (path : String) : Batch.Request :=
  { input := Path.ofText path
    overrides :=
      { outRoot := arguments.outRoot
        skipDirs := arguments.skip.getD []
        trace := if arguments.jsonTrace then some true else none } }

def run (grammar : Grammar) (files : FileSystem) (words : List String) : Effect :=
  match invocation words with
  | .help => .onlyText files help "" 0
  | .version => .onlyText files versionLine "" 0
  | .misuse misuse => .onlyText files "" (misuseText misuse.message) 2
  | .convert arguments =>
      match arguments.path with
      | none => .onlyText files "" usage 1
      | some path => ⟨Batch.run grammar files (arguments.request path), "", ""⟩

end ScriptTyping.CommandLine
