import ScriptTyping.Text.JsonString
import ScriptTyping.Trace.Basic

set_option autoImplicit false

namespace ScriptTyping

def jsonGroup (opening closing : String) (depth : Nat) (members : List String) : String :=
  if members.isEmpty then opening ++ closing
  else
    let inner := "\n" ++ String.ofList (List.replicate (depth + 2) ' ')
    let outer := "\n" ++ String.ofList (List.replicate depth ' ')
    opening ++ inner ++ String.intercalate ("," ++ inner) members ++ outer ++ closing

def jsonMember (name value : String) : String := JsonString.encode name ++ ": " ++ value

def jsonObject (depth : Nat) (members : List (String × String)) : String :=
  jsonGroup "\x7b" "\x7d" depth (members.map fun (name, value) => jsonMember name value)

def Event.toJson (event : Event) : String :=
  let parent := match event.parent with
    | some parent => toString parent
    | none => "null"
  let details := event.entry.details.map fun (name, text) => (name, JsonString.encode text)
  jsonObject 2
    [("id", toString event.id),
     ("type", JsonString.encode event.entry.type),
     ("timestamp", "0.0"),
     ("description", JsonString.encode event.entry.description),
     ("parent_id", parent),
     ("metadata", jsonObject 4 details)]

def Trace.toJson (trace : Trace) : String :=
  jsonGroup "[" "]" 0 (trace.events.toList.map Event.toJson)

end ScriptTyping
