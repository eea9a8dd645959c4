import FlowLock.Setting

/-!
# Engine settings

The engine that runs the agent, what is changed about it, and the sandbox it runs
in.
-/

namespace FlowLock

open Entries Setting

structure Sandbox where
  isOn : Bool := true
  /-- Further mounts, as they were declared. -/
  mounts : List Value := []
deriving Repr, Inhabited

namespace Sandbox

def onName : String := "awf"

def offName : String := "none"

def name (s : Sandbox) : String := if s.isOn then onName else offName

def ofName (name : String) (mounts : List Value) : Outcome Sandbox :=
  if name == onName then .ok { isOn := true, mounts }
  else if name == offName then .ok { isOn := false, mounts }
  else .error (.mustBe "sandbox.agent" (.either onName offName) (some s!"'{name}'"))

/-- The mounts of a setting; what counts as not set is none. -/
def parseMounts (v : Value) : Outcome (List Value) :=
  if v.truthy then orFatal v.elements? else .ok []

def parse (v : Value) : Outcome Sandbox :=
  match v with
  | .null => .ok {}
  | v => do
    let es ← object v "sandbox"
    match get? es "agent" with
    | none => .ok {}
    | some (.bool false) => .ok { isOn := false }
    | some (.str name) => ofName name []
    | some (.map agent) =>
      let mounts ← parseMounts (getD agent "mounts")
      ofName (← text (getD agent "id") "sandbox.agent.id" onName) mounts
    | some _ => .error (.mustBe "sandbox.agent" .stringFalseOrObject none)

end Sandbox

/-- The engine of a workflow and what is changed about it. -/
structure EngineSettings where
  id : String := "copilot"
  /-- The version to install; the configured one when empty. -/
  version : String := ""
  model : String := ""
  environment : Table String := []
  /-- A limit for the turns of the agent, templated. -/
  maxTurns : Option String := none
  command : String := ""
  args : List String := []
  agent : String := ""
  steps : List Value := []
  sandbox : Sandbox := {}
deriving Repr, Inhabited

namespace EngineSettings

def parseMaxTurns : Value → Outcome (Option String)
  | .null => .ok none
  | v =>
    v.template >>= fun
    | some s => .ok (some s)
    | none => .error (.mustBe "engine.max-turns" .integerOrExpression none)

/-- The engine's own steps; what counts as not set is none. -/
def parseSteps (v : Value) : Outcome (List Value) :=
  if !v.truthy then .ok []
  else match v.items? with
    | some steps => .ok steps
    | none => .error (.mustBe "engine.steps" .array none)

def ofEntries (es : Entries) (sandbox : Sandbox) : Outcome EngineSettings :=
  match getD es "id" with
  | .str id =>
    if Text.isAllBlank id then .error (.schema "engine.id" .missingEngineId)
    else do
      let maxTurns ← parseMaxTurns (getD es "max-turns")
      let steps ← parseSteps (getD es "steps")
      let version ← text (getD es "version") "engine.version" ""
      let model ← text (getD es "model") "engine.model" ""
      let environment ← Setting.environment (getD es "env") "engine.env"
      let command ← text (getD es "command") "engine.command" ""
      let args ← texts (getD es "args") "engine.args"
      let agent ← text (getD es "agent") "engine.agent" ""
      .ok { id := Text.trim id, version, model, environment, maxTurns, command, args, agent,
            steps, sandbox }
  | _ => .error (.schema "engine.id" .missingEngineId)

def parse (v sandbox : Value) : Outcome EngineSettings := do
  let sandbox ← Sandbox.parse sandbox
  match v with
  | .null => .ok { sandbox }
  | .str id => .ok { id := Text.trim id, sandbox }
  | v => ofEntries (← object v "engine") sandbox

end EngineSettings

end FlowLock
