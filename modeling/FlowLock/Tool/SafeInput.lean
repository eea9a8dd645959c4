import FlowLock.Setting

/-!
# Safe inputs

Tools that a workflow brings with it: each is a piece of code that is served to the
agent.
-/

namespace FlowLock

open Entries

inductive Handler where
  | script
  | shell
  | python
deriving Repr, DecidableEq, Inhabited

namespace Handler

/-- The handlers in the order in which they are looked for. -/
def all : List Handler := [.script, .shell, .python]

def key : Handler → String
  | .script => "script"
  | .shell => "run"
  | .python => "py"

end Handler

/-- A tool that the workflow brings with it. -/
structure SafeInput where
  name : String
  description : String
  handler : Handler
  code : String
  inputs : Entries := []
  environment : Table String := []
deriving Repr, Inhabited

namespace SafeInput

def readHandler (es : Entries) (place : String) : Outcome Handler :=
  match Handler.all.filter fun h => has es h.key with
  | [handler] => .ok handler
  | _ => .error (.schema place (.safeInputHandlers place))

/-- The parameters of a tool; what counts as not set is none. -/
def parseInputs (v : Value) (place : String) : Outcome Entries :=
  if v.truthy then Setting.object v place else .ok []

def parse (name : String) (v : Value) : Outcome SafeInput := do
  let place := "safe-inputs." ++ name
  let es ← Setting.object v place
  let handler ← readHandler es place
  let description ← Setting.text (getD es "description") (place ++ ".description") ""
  let code ← Setting.text (getD es handler.key) (place ++ "." ++ handler.key) ""
  let inputs ← parseInputs (getD es "inputs") (place ++ ".inputs")
  let environment ← Setting.environment (getD es "env") (place ++ ".env")
  .ok { name, description, handler, code, inputs, environment }

/-- The tools of a workflow, in the order of their declaration. -/
def parseAll : Value → Outcome (List SafeInput)
  | .null => .ok []
  | v => do
    let es ← Setting.object v "safe-inputs"
    es.mapM fun e => parse e.1.plain e.2

/-- A tool as its server is told about it: of the environment only the names. -/
def toValue (t : SafeInput) : Value :=
  .obj ([("description", .str t.description), ("handler", .str t.handler.key)] ++
    (if t.inputs.isEmpty then [] else [("inputs", .map t.inputs)]) ++
    [("code", .str t.code)] ++
    (if t.environment.isEmpty then []
      else [("env", .strs (Text.sorted (Table.keys t.environment)))]))

end SafeInput

end FlowLock
