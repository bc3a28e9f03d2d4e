set_option autoImplicit false

namespace ScriptTyping.CommandLine

def programName : String := "ts-converter"

def programVersion : String := "0.0.1"

def usage : String :=
  "usage: ts-converter [-h] [--version] [--out-root OUT_ROOT]\n" ++
  "                    [--skip SKIP [SKIP ...]] [--json-trace]\n" ++
  "                    [path]\n"

def help : String :=
  usage ++
  "\n" ++
  "ts-converter: Annotate JavaScript sources as TypeScript\n" ++
  "\n" ++
  "positional arguments:\n" ++
  "  path                  Input source file or directory\n" ++
  "\n" ++
  "options:\n" ++
  "  -h, --help            show this help message and exit\n" ++
  "  --version             show program's version number and exit\n" ++
  "  --out-root OUT_ROOT   Output directory name (default: tsConverter)\n" ++
  "  --skip SKIP [SKIP ...]\n" ++
  "                        Additional path segments to exclude (default list:\n" ++
  "                        node_modules public web_pack .erb)\n" ++
  "  --json-trace          Write a <output>.trace.json with the conversion events\n" ++
  "                        next to every output file\n"

def versionLine : String := programName ++ " " ++ programVersion ++ "\n"

def misuseText (message : String) : String :=
  usage ++ programName ++ ": error: " ++ message ++ "\n"

end ScriptTyping.CommandLine
