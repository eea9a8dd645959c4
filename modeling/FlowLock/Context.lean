import FlowLock.Action
import FlowLock.Config

/-!
# The context of a compile

Everything that a compile may consult besides the workflow itself, and what it
reports besides its result.
-/

namespace FlowLock

/-- Scripts by name, each with the path of the custom action that replaces it; the
path is empty when there is none. -/
abbrev ScriptRegistry := Table String

namespace ScriptRegistry

def actionPath (scripts : ScriptRegistry) (name : String) : String :=
  (Table.get? scripts name).getD ""

def names (scripts : ScriptRegistry) : List String := Text.sorted (Table.keys scripts)

end ScriptRegistry

/-- What a compile may consult. -/
structure Context where
  config : Config := {}
  mode : ActionMode := .dev
  pin : PinResolver := resolvePin
  scripts : ScriptRegistry := []

inductive Warning where
  | note (text : String)
  | experimental (feature : String)
  | firewallDisabled
  | noFirewall (engine : String)
  | noAgentSteps
deriving Repr, DecidableEq

def Warning.message : Warning → String
  | .note text => text
  | .experimental feature => s!"Using experimental feature: {feature}"
  | .firewallDisabled =>
    "Firewall is disabled but network restrictions are specified (network.allowed). " ++
    "Network may not be properly sandboxed."
  | .noFirewall engine =>
    s!"Selected engine '{engine}' does not support network firewalling; " ++
    "network restrictions will not be enforced"
  | .noAgentSteps => "Custom engine has no steps; the agent job runs no agent"

/-- Failed checks; the first category that is more than a failed check is kept. -/
structure Findings where
  messages : List String := []
  kind : Option ErrorKind := none
deriving Repr, DecidableEq

namespace Findings

def add (f : Findings) (message : String) (kind : Option ErrorKind) : Findings :=
  { messages := f.messages ++ [message]
    kind := match f.kind with
      | some k => some k
      | none => kind }

def addAll (f : Findings) (messages : List String) : Findings :=
  messages.foldl (fun f m => f.add m none) f

def extend (f : Findings) (kind : ErrorKind) (messages : List String) : Findings :=
  messages.foldl (fun f m => f.add m (if kind == .validation then none else some kind)) f

def report (f : Findings) : Outcome Unit :=
  if f.messages.isEmpty then .ok ()
  else .error (.invalid (f.kind.getD .validation) f.messages)

end Findings

end FlowLock
