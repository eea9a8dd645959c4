import FlowLock.Import.Merge
import FlowLock.Tool.GitHub
import FlowLock.Tool.Memory
import FlowLock.Tool.Server

/-!
# The tools of a workflow

The tools section with what imports add to it.  A key of the section is one of the
built-in tools or the name of a server that the workflow declares.
-/

namespace FlowLock

open Entries Setting

structure BrowserTool where
  allowedDomains : List String := []
  version : String := ""
deriving Repr, Inhabited

structure LanguageTool where
  languages : List String := []
  mode : String := "docker"
deriving Repr, Inhabited

structure Tools where
  github : Option GitHubTool := some {}
  /-- The allowed commands, a star for all; none when there is no shell. -/
  bash : Option (List String) := none
  edit : Bool := false
  webFetch : Bool := false
  webSearch : Bool := false
  playwright : Option BrowserTool := none
  serena : Option LanguageTool := none
  caches : List CacheMemory := []
  repoMemory : Option RepoMemory := none
  agenticWorkflows : Bool := false
  servers : Table ToolServer := []
  declared : Entries := []
deriving Repr, Inhabited

namespace Tools

def builtIn : List String :=
  ["github", "bash", "edit", "web-fetch", "web-search", "playwright", "serena", "cache-memory",
   "repo-memory", "agentic-workflows", "timeout", "startup-timeout"]

def parseBash : Value → Outcome (Option (List String))
  | .null => .ok (some ["*"])
  | .bool true => .ok (some ["*"])
  | .bool false => .ok none
  | v => do .ok (some (← texts v "tools.bash"))

def parseBrowser : Value → Outcome (Option BrowserTool)
  | .bool false => .ok none
  | .bool true => .ok (some {})
  | .null => .ok (some {})
  | v => do
    let es ← object v "tools.playwright"
    let domains := match get? es "allowed_domains" with
      | some v => v
      | none => getD es "allowed-domains"
    let allowedDomains ← texts domains "tools.playwright.allowed_domains"
    let version ← text (getD es "version") "tools.playwright.version" ""
    .ok (some { allowedDomains, version })

/-- The languages of a setting: names, or a mapping whose keys are names. -/
def parseLanguages (v : Value) : Outcome (List String) :=
  match v.opened with
  | .map es => .ok (es.map fun e => e.1.plain)
  | v => texts v "tools.serena.languages"

def parseSerena (v : Value) : Outcome (Option LanguageTool) :=
  match v.opened with
  | .bool false => .ok none
  | .bool true => .ok (some {})
  | .null => .ok (some {})
  | .list items => do .ok (some { languages := ← texts (.list items) "tools.serena" })
  | v => do
    let es ← object v "tools.serena"
    let languages ← parseLanguages (getD es "languages")
    let mode ← text (getD es "mode") "tools.serena.mode" "docker"
    .ok (some { languages, mode })

def whenNamed {α : Type} (declared : Entries) (key : String) (absent : α)
    (parse : Value → Outcome α) : Outcome α :=
  match get? declared key with
  | some v => parse v
  | none => .ok absent

/-- Whether a section names a tool and does not turn it off. -/
def turnsOn (declared : Entries) (key : String) : Bool :=
  (get? declared key).any fun v => !v.isFalse

def isServerKey : Value → Bool
  | .str key => !builtIn.contains key
  | _ => true

def serversIn (declared : Entries) : Outcome (Table ToolServer) :=
  (declared.filter fun e => isServerKey e.1).foldlM (fun servers e => do
    let server ← ToolServer.parse e.1.plain e.2
    .ok (Table.set servers e.1.plain server)) []

def withImported (declared : Entries) (imported : Table Value) : Entries :=
  imported.foldl (fun es e => if es.has e.1 then es else es ++ [(.str e.1, e.2)]) declared

/-- The servers with those of the servers section; a server that the tools section
declares stays. -/
def addServers (servers : Table ToolServer) (listed : Entries) :
    Outcome (Table ToolServer) :=
  listed.foldlM (fun servers e =>
    if (e.1.str?).any fun name => Table.has servers name then .ok servers
    else do
      let server ← ToolServer.parse e.1.plain e.2
      .ok (Table.set servers e.1.plain server)) servers

/-- The tools and servers sections of a workflow with those of its imports.  A tool
under a key that is no text is fatal. -/
def parse (tools servers : Value) (importedTools : Entries) (importedServers : Table Value) :
    Outcome Tools := do
  let main ← match tools with
    | .null => Except.ok []
    | v => object v "tools"
  let declared := Import.merge main importedTools
  let custom ← serversIn declared
  let listed ← match servers with
    | .null => Except.ok []
    | v => object v "mcp-servers"
  let custom ← addServers custom (withImported listed importedServers)
  let github ← GitHubTool.parse (getD declared "github")
  let bash ← whenNamed declared "bash" none parseBash
  let playwright ← whenNamed declared "playwright" none parseBrowser
  let serena ← whenNamed declared "serena" none parseSerena
  let caches ← whenNamed declared "cache-memory" [] CacheMemory.parseAll
  let repoMemory ← whenNamed declared "repo-memory" none RepoMemory.parse
  if declared.any fun e => e.1.str?.isNone then .error .fatal
  else
    .ok
      { github
        bash
        edit := turnsOn declared "edit"
        webFetch := turnsOn declared "web-fetch"
        webSearch := turnsOn declared "web-search"
        playwright
        serena
        caches
        repoMemory
        agenticWorkflows := turnsOn declared "agentic-workflows"
        servers := custom
        declared }

end Tools

end FlowLock
