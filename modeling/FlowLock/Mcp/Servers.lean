import FlowLock.Mcp.Secret
import FlowLock.Step
import FlowLock.Workflow.Basic

/-!
# The servers of an agent

The tool servers that an agent is told about: those behind the built-in tools in a
fixed order, then the servers that the workflow declares.  A declared server whose
name is taken is left out.

No secret stands in the configuration of a server's environment: the server gets a
reference to a variable, and the agent's step sets the variable.
-/

namespace FlowLock.Mcp

open Table Step Secret

def directory : String := "/tmp/gh-aw/mcp-config"

def jsonPath : String := directory ++ "/mcp-servers.json"

def tomlPath : String := directory ++ "/config.toml"

def tokenVariable : String := "GITHUB_MCP_SERVER_TOKEN"

def tokenStepId : String := "github-mcp-app-token"

def safeOutputsDirectory : String := "/opt/gh-aw/safeoutputs"

def safeInputsDirectory : String := "/opt/gh-aw/safe-inputs"

def safeInputsPath : String := safeInputsDirectory ++ "/tools.json"

def gitHubToken (w : Workflow) : String :=
  match w.tools.github with
  | none => ""
  | some github =>
    if github.app.isSome then expression s!"steps.{tokenStepId}.outputs.token"
    else if github.token.isEmpty then
      expression
        ("secrets.GH_AW_GITHUB_MCP_SERVER_TOKEN || secrets.GH_AW_GITHUB_TOKEN || " ++
         "secrets.GITHUB_TOKEN")
    else github.token

def carriedBy (server : ToolServer) : Table String :=
  (server.environment.filter fun e => hasExpression e.2).map fun e =>
    (carrier server.name e.1, e.2)

def secretEnvironment (w : Workflow) : Table String :=
  let token : Table String :=
    if w.tools.github.isSome then [(tokenVariable, gitHubToken w)] else []
  update (update token (w.tools.servers.values.flatMap carriedBy))
    (w.safeInputs.flatMap (·.environment))

/-! ## Entries of the configuration

An entry is *typed* when the agent wants to be told the type of the server and the
tools it may use. -/

def environmentEntry (t : Table String) : Table Value :=
  if t.isEmpty then [] else [("env", texts t)]

def localType (typed : Bool) : Table Value := if typed then [("type", .str "local")] else []

/-- The tools that may be used, all when none is named. -/
def toolsEntry (allowed : List String) : Table Value :=
  [("tools", .strs (if allowed.isEmpty then ["*"] else allowed))]

def started (typed : Bool) (command : String) (args : List String)
    (environment : Table String) : Value :=
  .obj (localType typed ++ [("command", .str command), ("args", .strs args)] ++
    environmentEntry environment ++ (if typed then toolsEntry [] else []))

def remoteGitHub (github : GitHubTool) : Table Value :=
  [("type", .str "http"),
   ("url", .str "https://api.githubcopilot.com/mcp/"),
   ("headers", texts
    ([("Authorization", "Bearer " ++ reference tokenVariable),
      ("X-MCP-Toolsets", ",".intercalate github.toolsets)] ++
     (if github.readOnly then [("X-MCP-Readonly", "true")] else [])))]

def containedGitHub (typed : Bool) (github : GitHubTool) : Table Value :=
  let version := if github.version.isEmpty then "v0.26.3" else github.version
  localType typed ++
  [("command", .str "docker"),
   ("args", .strs
    (["run", "-i", "--rm", "-e", "GITHUB_PERSONAL_ACCESS_TOKEN"] ++
     (if github.readOnly then ["-e", "GITHUB_READ_ONLY=1"] else []) ++
     ["-e", "GITHUB_TOOLSETS=" ++ ",".intercalate github.toolsets,
      s!"ghcr.io/github/github-mcp-server:{version}"])),
   ("env", texts [("GITHUB_PERSONAL_ACCESS_TOKEN", reference tokenVariable)])]

def gitHub (typed : Bool) (github : GitHubTool) : Value :=
  let guard : Table Value :=
    if github.guard.isSet then
      [("guard-policies", .obj [("allow-only", .obj
        [("repos", github.guard.repos), ("min-integrity", github.guard.minIntegrity)])])]
    else []
  .obj ((if github.isRemote then remoteGitHub github else containedGitHub typed github) ++
    guard ++ (if typed then toolsEntry github.allowed else []))

def browser (typed : Bool) (tool : BrowserTool) : Value :=
  let image := "mcr.microsoft.com/playwright/mcp" ++
    (if tool.version.isEmpty then "" else ":" ++ tool.version)
  started typed "docker"
    (["run", "-i", "--rm", "--init", image, "--output-dir", "/tmp/gh-aw/mcp-logs/playwright"] ++
     (if tool.allowedDomains.isEmpty then []
      else ["--allowed-hosts", ";".intercalate tool.allowedDomains])) []

def language (typed : Bool) (tool : LanguageTool) : Value :=
  let workspace := reference "GITHUB_WORKSPACE"
  let start := ["start-mcp-server", "--context", "codex", "--project", workspace]
  if tool.mode == "local" then
    started typed "uvx"
      (["--from", "git+https://github.com/oraios/serena", "serena"] ++ start) []
  else
    started typed "docker"
      (["run", "-i", "--rm", "-v", s!"{workspace}:{workspace}:rw",
        "ghcr.io/oraios/serena:latest", "serena"] ++ start) []

def agenticWorkflows (typed : Bool) : Value :=
  started typed "gh" ["aw", "mcp-server"] [("GITHUB_TOKEN", reference tokenVariable)]

def safeOutputs (typed : Bool) : Value :=
  started typed "node" [safeOutputsDirectory ++ "/mcp-server.cjs"]
    [("GH_AW_SAFE_OUTPUTS", reference "GH_AW_SAFE_OUTPUTS"),
     ("GH_AW_SAFE_OUTPUTS_CONFIG_PATH", safeOutputsDirectory ++ "/config.json")]

def safeInputs (typed : Bool) (tools : List SafeInput) : Value :=
  let references := tools.flatMap fun t =>
    t.environment.map fun e => (e.1, reference e.1)
  let environment : Table String :=
    update [("GH_AW_SAFE_INPUTS_TOOLS_PATH", safeInputsPath)] references
  started typed "node" [safeInputsDirectory ++ "/mcp-server.cjs"] (sorted environment)

def webFetch (typed : Bool) : Value :=
  .obj (localType typed ++ [("container", .str "mcp/fetch")] ++
    (if typed then toolsEntry [] else []))

/-- The environment of a declared server, where expressions are replaced by references
to the variables that carry them. -/
def serverEnvironment (server : ToolServer) : Table String :=
  server.environment.map fun e =>
    (e.1, if hasExpression e.2 then reference (carrier server.name e.1)
          else e.2)

def listEntry (key : String) (values : List Value) : Table Value :=
  if values.isEmpty then [] else [(key, .list values)]

def reach (server : ToolServer) : Table Value :=
  match server.transport with
  | .http =>
    [("url", .str server.url)] ++
    (if server.headers.isEmpty then []
     else [("headers", texts (sorted server.headers))])
  | .stdio =>
    textEntry "container" server.container ++ textEntry "command" server.command ++
    listEntry "args" (server.args.map .str) ++ listEntry "mounts" server.mounts ++
    environmentEntry (sorted (serverEnvironment server))

def declared (typed : Bool) (server : ToolServer) : Value :=
  let kind : Table Value :=
    if typed then
      [("type", .str (if server.transport == .http then "http" else "local"))]
    else []
  let tools : Table Value :=
    if typed then toolsEntry server.allowed
    else listEntry "allowed" (server.allowed.map .str)
  .obj (kind ++ reach server ++ tools)

/-! ## All servers -/

def hasOutputs (w : Workflow) : Bool := w.safeOutputs.any fun s => !s.outputs.isEmpty

/-- The servers behind the built-in tools.  `fetches` says that the agent fetches web
pages itself. -/
def builtIn (w : Workflow) (typed fetches : Bool) : Table Value :=
  let tools := w.tools
  (tools.github.toList.map fun t => ("github", gitHub typed t)) ++
  (tools.playwright.toList.map fun t => ("playwright", browser typed t)) ++
  (tools.serena.toList.map fun t => ("serena", language typed t)) ++
  (if tools.agenticWorkflows then [("agentic_workflows", agenticWorkflows typed)] else []) ++
  (if hasOutputs w then [("safeoutputs", safeOutputs typed)] else []) ++
  (if w.safeInputs.isEmpty then [] else [("safeinputs", safeInputs typed w.safeInputs)]) ++
  (if tools.webFetch && !fetches then [("web-fetch", webFetch typed)] else [])

def servers (w : Workflow) (typed fetches : Bool) : Table Value :=
  addNew (declared typed) (builtIn w typed fetches) w.tools.servers

end FlowLock.Mcp
