import ScriptTyping.Text.ConsoleMarkup

set_option autoImplicit false

namespace ScriptTyping

inductive Level where
  | info
  | success
  | warning
  | error
deriving DecidableEq

namespace Level

def name : Level → String
  | info => "INFO"
  | success => "SUCCESS"
  | warning => "WARNING"
  | error => "ERROR"

def icon : Level → String
  | info => "•"
  | success => "✔"
  | warning => "!"
  | error => "✘"

end Level

structure ReportRow where
  file : String
  issues : String

inductive Notice where
  | log (level : Level) (message : String)
  | line (text : String)
  | report (rows : List ReportRow)

def Notice.record (level : Level) (text : String) : Notice :=
  .log level (level.icon ++ " " ++ text)

def reportTitle : String := "Conversion Report"

def reportColumns : List String := ["File", "Status", "Issues"]

def ReportRow.cells (row : ReportRow) : List String := [row.file, "Failed", row.issues]

def shownPath (path : String) : String := "[path]" ++ ConsoleMarkup.escape path ++ "[/path]"

end ScriptTyping
