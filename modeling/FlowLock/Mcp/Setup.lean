import FlowLock.Mcp.Render
import FlowLock.Mcp.Servers

/-!
# Setting up servers

The steps that write the configuration of the servers for the agent.
-/

namespace FlowLock.Mcp

open Step

def tokenSteps (w : Workflow) (ctx : Context) : Outcome (List Value) :=
  match w.tools.github.bind (·.app) with
  | none => .ok []
  | some app => do
    .ok [← appToken ctx app tokenStepId "Generate GitHub App token for MCP"]

def safeInputSteps (w : Workflow) : Outcome (List Value) :=
  if w.safeInputs.isEmpty then .ok []
  else do
    let tools : Table Value := .ofWritten (w.safeInputs.map fun t => (t.name, t.toValue))
    let text ← orFatal (Json.encode? Json.indented (.obj tools))
    .ok [run "Setup Safe Inputs"
      (s!"mkdir -p {safeInputsDirectory}\n" ++
       heredoc safeInputsPath text "GH_AW_SAFE_INPUTS_EOF")]

def configText (w : Workflow) (toml typed fetches : Bool) : Outcome String :=
  let all := servers w typed fetches
  if toml then renderToml all else renderJson all

def setupSteps (w : Workflow) (ctx : Context) (toml typed fetches : Bool) :
    Outcome (List Value) := do
  let token ← tokenSteps w ctx
  let inputs ← safeInputSteps w
  let path := if toml then tomlPath else jsonPath
  let text ← configText w toml typed fetches
  .ok (token ++ inputs ++
    [run "Setup MCPs"
      (s!"mkdir -p {directory}\n" ++ heredoc path text "GH_AW_MCP_CONFIG_EOF")])

end FlowLock.Mcp
