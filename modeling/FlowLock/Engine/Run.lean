import FlowLock.Engine.Command
import FlowLock.Mcp.Setup
import FlowLock.Network.Firewall

/-!
# Running an engine

The steps of the agent job that an engine contributes: it is installed, its servers
are set up, and it is run on the prompt, behind the firewall when that is on.
-/

namespace FlowLock.Engine

open Table Step

def version (e : Engine) (w : Workflow) (ctx : Context) : String :=
  if !w.engine.version.isEmpty then w.engine.version
  else if e == .custom then ""
  else ctx.config.engineVersion e.id

def usesFirewall (e : Engine) (w : Workflow) : Bool :=
  w.network.usesFirewall e.profile.supportsFirewall w.engine.sandbox.isOn

/-- The domains that the agent may reach behind the firewall. -/
def domains (e : Engine) (w : Workflow) : List String :=
  Network.domains w.network.allowed e.profile.domains

def firewallVersion (w : Workflow) (ctx : Context) : String :=
  if w.network.firewall.version.isEmpty then ctx.config.firewallVersion
  else w.network.firewall.version

def scriptStep (name id : String) (extra : Table Value) (script : String)
    (environment : Table String) : Value :=
  .obj ([("name", .str name), ("id", .str id)] ++ extra ++
    [("run", .str (if Text.endsWith script "\n" then script else script ++ "\n"))] ++
    Mcp.environmentEntry (sorted environment))

/-! ## Installing -/

def packageSteps (e : Engine) (w : Workflow) (ctx : Context) : Outcome (List Value) :=
  let version := e.version w ctx
  match e with
  | .custom => .ok []
  | .copilot =>
    .ok [run "Install GitHub Copilot CLI"
      s!"/opt/gh-aw/actions/install_copilot_cli.sh {version}"]
  | e => do
    let uses ← ctx.pin "actions/setup-node"
    .ok
      [.obj
        [("name", .str "Setup Node.js"),
         ("uses", .str uses),
         ("with", .obj
          [("node-version", .str "24"), ("package-manager-cache", .bool false)])],
       run s!"Install {e.profile.name} CLI"
        s!"npm install -g --silent {e.profile.package}@{version}"]

/-- The steps that install the engine, unless the workflow has a command of its own,
and the firewall. -/
def installSteps (e : Engine) (w : Workflow) (ctx : Context) : Outcome (List Value) := do
  let package ← if w.engine.command.isEmpty then e.packageSteps w ctx else .ok []
  let firewall :=
    if e.usesFirewall w then [Network.installStep (firewallVersion w ctx)] else []
  .ok (package ++ firewall)

def secretStep? (e : Engine) : Option Value :=
  let secrets := e.profile.secrets
  if secrets.isEmpty then none
  else
    some (scriptStep ("Validate " ++ " or ".intercalate secrets ++ " secret") "validate-secret" []
      ("/opt/gh-aw/actions/validate_multi_secret.sh " ++ " ".intercalate secrets ++
        s!" '{e.profile.name}' {e.profile.docs}")
      (secrets.map fun name => (name, expression s!"secrets.{name}")))

def serverSteps (e : Engine) (w : Workflow) (ctx : Context) : Outcome (List Value) :=
  Mcp.setupSteps w ctx e.profile.usesToml e.profile.typesServers e.profile.fetchesWeb

/-! ## The environment -/

def turnsVariable (w : Workflow) : Table String :=
  w.engine.maxTurns.toList.map fun turns => ("GH_AW_MAX_TURNS", turns)

/-- Where safe outputs are written, when there is a section for them. -/
def outputsVariable (w : Workflow) : Table String :=
  if w.safeOutputs.isSome then
    [("GH_AW_SAFE_OUTPUTS", expression "env.GH_AW_SAFE_OUTPUTS")]
  else []

def ownVariables (e : Engine) (w : Workflow) : Table String :=
  let secret (name : String) : String × String := (name, expression s!"secrets.{name}")
  match e with
  | .copilot =>
    [("COPILOT_AGENT_RUNNER_TYPE", "STANDALONE"), secret "COPILOT_GITHUB_TOKEN",
     ("XDG_CONFIG_HOME", "/home/runner")]
  | .claude =>
    [secret "ANTHROPIC_API_KEY", secret "CLAUDE_CODE_OAUTH_TOKEN", ("DISABLE_BUG_COMMAND", "1"),
     ("DISABLE_ERROR_REPORTING", "1"), ("DISABLE_TELEMETRY", "1"), ("MCP_TIMEOUT", "120000"),
     ("MCP_TOOL_TIMEOUT", "60000")] ++ turnsVariable w
  | .codex =>
    let key := expression "secrets.CODEX_API_KEY || secrets.OPENAI_API_KEY"
    [("CODEX_API_KEY", key), ("CODEX_HOME", Mcp.directory), ("OPENAI_API_KEY", key),
     ("RUST_LOG", "trace,hyper_util=info,mio=info,reqwest=info,os_info=info,codex_otel=warn")]
  | .gemini =>
    [secret "GEMINI_API_KEY", ("GEMINI_CLI_SYSTEM_SETTINGS_PATH", Mcp.jsonPath)]
  | .custom => []

/-- The environment in which an engine runs.  Of the secrets only those get through
that the engine needs, that servers need, or that the workflow sets itself. -/
def environment (e : Engine) (w : Workflow) : Table String :=
  let general : Table String :=
    [("GH_AW_PROMPT", promptPath),
     ("GITHUB_WORKSPACE", expression "github.workspace"),
     ("GITHUB_STEP_SUMMARY", expression "env.GITHUB_STEP_SUMMARY")] ++
    outputsVariable w ++
    (if w.engine.model.isEmpty then
      [(e.modelVariable, expression s!"vars.{e.modelVariable} || ''")]
     else [])
  let servers := Mcp.secretEnvironment w
  let all := update (update (update general (e.ownVariables w)) servers)
    w.engine.environment
  Secret.filter all (e.profile.secrets ++ keys servers ++ keys w.engine.environment)

/-! ## Running -/

def pathSetup : String :=
  "export PATH=\"$(find /opt/hostedtoolcache -maxdepth 4 -type d -name bin 2>/dev/null " ++
  "| tr '\\n' ':')$PATH\"; [ -n \"$GOROOT\" ] && export PATH=\"$GOROOT/bin:$PATH\" || true"

def runName (e : Engine) : String :=
  let name := e.profile.name
  if Text.endsWith name " CLI" then "Execute " ++ name else "Execute " ++ name ++ " CLI"

def runScript (e : Engine) (w : Workflow) : String :=
  let command := e.command w
  let command :=
    if e.usesFirewall w then
      Network.wrapCommand command (e.domains w) w.network.firewall.logLevel
    else command
  s!"set -o pipefail\n{pathSetup}\n{command} 2>&1 | tee {outputLog}\n"

def customEnvironment (w : Workflow) : Table String :=
  update
    ([("GH_AW_MCP_CONFIG", Mcp.jsonPath), ("GH_AW_PROMPT", promptPath)] ++ outputsVariable w ++
      turnsVariable w)
    w.engine.environment

/-- A step of the workflow with the environment it gets; what the step sets itself
counts. -/
def customStep (w : Workflow) (step : Entries) : Value :=
  let given : Table Value := (customEnvironment w).map fun e => (e.1, .str e.2)
  let own : List (String × Value) :=
    ((Entries.getD step "env").entries?.getD []).map fun e => (e.1.plain, e.2)
  .map (Entries.erase step "env" ++ [(.str "env", .obj (sorted (update given own)))])

def runSteps (e : Engine) (w : Workflow) (ctx : Context) :
    Outcome (List Value × List Warning) :=
  match e with
  | .custom =>
    let steps := (w.engine.steps.filterMap Value.entries?).map (customStep w)
    .ok (steps, if steps.isEmpty then [.noAgentSteps] else [])
  | e => do
    let run := scriptStep e.runName "agentic_execution"
      [("timeout-minutes", .int w.timeoutMinutes)] (e.runScript w) (e.environment w)
    let logs ← if e.usesFirewall w then Network.logSteps ctx w.name else .ok []
    .ok (run :: logs, [])

end FlowLock.Engine
