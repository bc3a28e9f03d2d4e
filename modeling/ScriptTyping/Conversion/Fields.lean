import ScriptTyping.Conversion
import ScriptTyping.Settings.Check

set_option autoImplicit false

namespace ScriptTyping.Conversion

def ofFields (fields : Entries) : Checked Conversion :=
  let code := Checked.field fields "code" "" (Checked.one "code" Value.toText)
  let errors := Checked.field fields "errors" [] (Checked.listOf "errors" Value.toText)
  let success := Checked.field fields "success" true (Checked.one "success" Value.toBool)
  let hasMarkup :=
    Checked.field fields "has_markup" false (Checked.one "has_markup" Value.toBool)
  let events :=
    Checked.field fields "trace_events" [] (Checked.listOf "trace_events" Value.toTable)
  (Checked.both code (Checked.both errors (Checked.both success
    (Checked.both hasMarkup events)))).map
    fun (code, errors, success, hasMarkup, _) =>
      { code, errors, success, hasMarkup, trace := .empty }

end ScriptTyping.Conversion
