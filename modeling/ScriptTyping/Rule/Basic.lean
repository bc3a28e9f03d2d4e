import ScriptTyping.Rule.Declarations
import ScriptTyping.Rule.Functions
import ScriptTyping.Rule.Imports
import ScriptTyping.Rule.LoopHeaders
import ScriptTyping.Rule.Markup

set_option autoImplicit false

namespace ScriptTyping

inductive Rule where
  | declarations
  | loopHeaders
  | functions
  | imports
  | markup
deriving DecidableEq

namespace Rule

def handler (number : Nat) : Rule → Handler Session
  | declarations => Declarations.handler
  | loopHeaders => LoopHeaders.handler
  | functions => Functions.handler
  | imports => Imports.handler
  | markup => Markup.handler number

def tableFrom (number : Nat) : List Rule → HandlerTable Session
  | [] => []
  | rule :: rest => rule.handler number :: tableFrom (number + 1) rest

def table (rules : List Rule) : HandlerTable Session := tableFrom 0 rules

def findingsFrom (session : Session) (number : Nat) : List Rule → List Bool
  | [] => []
  | markup :: rest => session.hasFound number :: findingsFrom session (number + 1) rest
  | _ :: rest => findingsFrom session (number + 1) rest

def findings (session : Session) (rules : List Rule) : List Bool := findingsFrom session 0 rules

def all : List Rule := [declarations, loopHeaders, functions, imports, markup]

-- Enough steps for a walk with any rules. A rule adds less than forty nodes for each node of the
-- tree, and a walk takes two steps for each node that it visits.
def stepBudget (tree : Node) : Nat := 100 * (tree.rows.size + 1)

def walk (rules : List Rule) (tree : Node) (session : Session) : Outcome Session :=
  (table rules).walk (stepBudget tree) tree session

end Rule

end ScriptTyping
