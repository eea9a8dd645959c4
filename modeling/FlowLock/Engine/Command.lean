import FlowLock.Engine.Basic
import FlowLock.Mcp.Servers
import FlowLock.Text.Shell

/-!
# Command lines of engines

How each engine is called on the prompt, and which tools it is allowed to use.
-/

namespace FlowLock.Engine

def promptPath : String := "/tmp/gh-aw/aw-prompts/prompt.txt"

def outputLog : String := "/tmp/gh-aw/agent-stdio.log"

def logsDirectory : String := "/tmp/gh-aw/sandbox/agent/logs/"

def agentFile? (w : Workflow) : Option String := w.agentFile.filter fun file => !file.isEmpty

/-- The argument that names the model, or takes it from the repository's variable when
that is set. -/
def modelArgument (e : Engine) (w : Workflow) (flag : String) : String :=
  if w.engine.model.isEmpty then
    let name := e.modelVariable
    "$\x7b" ++ name ++ ":+" ++ flag ++ "\"$" ++ name ++ "\"\x7d"
  else flag ++ Text.shellWord w.engine.model

def promptArgument (w : Workflow) : String :=
  match agentFile? w with
  | some file =>
    s!"\"$(cat \"$\x7bGITHUB_WORKSPACE\x7d/{file}\"; echo; cat {promptPath})\""
  | none => s!"\"$(cat {promptPath})\""

def executable (w : Workflow) (usual : String) : String :=
  if w.engine.command.isEmpty then usual else w.engine.command

def isNarrow (allowed : List String) : Bool := !allowed.isEmpty && !allowed.contains "*"

/-! ## Allowed tools -/

def claudeTools (w : Workflow) : List String :=
  let tools := w.tools
  let shell := match tools.bash with
    | none => []
    | some commands =>
      if commands.contains "*" then ["Bash"] else commands.map fun c => s!"Bash({c})"
  let gitHub := match tools.github with
    | none => []
    | some github =>
      if github.allowed.isEmpty then ["mcp__github"]
      else github.allowed.map fun name => "mcp__github__" ++ name
  let servers := tools.servers.flatMap fun (name, server) =>
    if isNarrow server.allowed then server.allowed.map fun tool => s!"mcp__{name}__{tool}"
    else ["mcp__" ++ name]
  Text.sorted (Text.distinct
    (["ExitPlanMode", "Glob", "Grep", "LS", "NotebookRead", "Read", "Task", "TodoWrite"] ++
     shell ++
     (if tools.edit then ["Edit", "MultiEdit", "NotebookEdit", "Write"] else []) ++
     (if tools.webFetch then ["WebFetch"] else []) ++
     (if tools.webSearch then ["WebSearch"] else []) ++
     gitHub ++
     (if tools.playwright.isSome then ["mcp__playwright"] else []) ++
     (if tools.serena.isSome then ["mcp__serena"] else []) ++
     (if Mcp.hasOutputs w then ["mcp__safeoutputs"] else []) ++
     servers))

def copilotTools (w : Workflow) : List String :=
  let tools := w.tools
  let commands := tools.bash.getD []
  let only (name : String) (allowed : List String) : List String :=
    allowed.map fun tool => s!"--allow-tool '{name}({tool})'"
  if commands.contains "*" then ["--allow-all-tools"]
  else
    only "shell" commands ++
    (if tools.edit then ["--allow-tool write"] else []) ++
    (match tools.github with
      | none => []
      | some github =>
        if github.allowed.isEmpty then ["--allow-tool github"]
        else only "github" github.allowed) ++
    (if Mcp.hasOutputs w then ["--allow-tool safeoutputs"] else []) ++
    tools.servers.flatMap (fun (name, server) =>
      if isNarrow server.allowed then only name server.allowed else ["--allow-tool " ++ name]) ++
    (if tools.playwright.isSome then ["--allow-tool playwright"] else []) ++
    (if tools.serena.isSome then ["--allow-tool serena"] else []) ++
    (if tools.webFetch then ["--allow-tool web_fetch"] else [])

/-! ## Command lines -/

/-- The command line of Copilot, which takes agent files by name. -/
def copilotCommand (w : Workflow) : List String :=
  [executable w "/usr/local/bin/copilot", "--add-dir /tmp/gh-aw/", "--log-level all",
   s!"--log-dir {logsDirectory}", "--disable-builtin-mcps",
   "--add-dir \"$\x7bGITHUB_WORKSPACE\x7d\"", s!"--additional-mcp-config @{Mcp.jsonPath}",
   copilot.modelArgument w "--model "] ++
  ((agentFile? w).toList.map fun file => "--agent " ++ (Path.ofText file).stem) ++
  copilotTools w ++ w.engine.args ++ [s!"--prompt \"$(cat {promptPath})\""]

def claudeCommand (w : Workflow) : List String :=
  [executable w "claude", "--print", "--disable-slash-commands", "--no-chrome"] ++
  (w.engine.maxTurns.toList.map fun turns => "--max-turns " ++ turns) ++
  [s!"--mcp-config {Mcp.jsonPath}",
   "--allowed-tools '" ++ ",".intercalate (claudeTools w) ++ "'",
   s!"--debug-file {outputLog}", "--verbose", "--permission-mode bypassPermissions",
   "--output-format stream-json", claude.modelArgument w "--model "] ++
  w.engine.args ++ [promptArgument w]

def codexCommand (w : Workflow) : List String :=
  [executable w "codex", codex.modelArgument w "-c model=", "exec", "--full-auto",
   "--skip-git-repo-check"] ++ w.engine.args ++ [promptArgument w]

def geminiCommand (w : Workflow) : List String :=
  [executable w "gemini", "--yolo", "--output-format stream-json",
   gemini.modelArgument w "--model "] ++ w.engine.args ++ ["--prompt " ++ promptArgument w]

def command (e : Engine) (w : Workflow) : String :=
  " ".intercalate
    (match e with
      | .copilot => copilotCommand w
      | .claude => claudeCommand w
      | .codex => codexCommand w
      | .gemini => geminiCommand w
      | .custom => [])

end FlowLock.Engine
