import ScriptTyping.Batch

set_option autoImplicit false

namespace ScriptTyping

def FileFault.message : FileFault → String
  | .exists => "a file is in the place of a directory"
  | .notDirectory => "a path goes through a file"
  | .isDirectory => "a directory is in the place of a file"
  | .notFound => "a path leads nowhere"
  | .tooLong => "a name or a path is too long"
  | .nullCharacter => "embedded null byte"
  | .denied => "permission denied"

def WalkFault.message : WalkFault → String
  | emptySource => "an import names no source"
  | unopenedBlock => "a block has no opening brace"
  | outOfSteps => "the tree grows without end"

def Settings.LoadFault.message : Settings.LoadFault → String
  | files fault => fault.message
  | undecodable fault => "the settings file is not text: " ++ fault.message
  | longNumber digits =>
      "Exceeds the limit (" ++ toString Toml.digitLimit ++
        " digits) for integer string conversion: value has " ++ toString digits ++
        " digits; use sys.set_int_max_str_digits() to increase the limit"
  | noTable => "the settings are not in a table"
  | notListable => "a setting is not a list"
  | invalid _ => "the settings are not valid"

def Conversion.Fault.message : Conversion.Fault → String
  | undecodable fault => "the parse cuts a character: " ++ fault.message
  | walk fault => fault.message

def RunFault.message : RunFault → String
  | settings fault => fault.message
  | files fault => fault.message
  | conversion fault => fault.message
  | outsideRoot => "a path is not below the root"

def Notice.lines : Notice → List String
  | log _ message => [message]
  | line text => [text]
  | report rows =>
      reportTitle :: (reportColumns :: rows.map ReportRow.cells).map (String.intercalate "\t")

end ScriptTyping
