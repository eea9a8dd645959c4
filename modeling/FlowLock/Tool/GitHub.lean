import FlowLock.GitHubApp
import FlowLock.Setting

/-!
# The GitHub tool

The server through which an agent reads from GitHub.  It is there unless the
workflow turns it off.
-/

namespace FlowLock

open Entries Setting

/-- What the server may show.  The settings are kept as they were declared; whether
they mean something is a check of its own. -/
structure GuardPolicy where
  repos : Value := .null
  minIntegrity : Value := .null
deriving Repr, Inhabited

def GuardPolicy.isSet (p : GuardPolicy) : Bool := !p.repos.isNull || !p.minIntegrity.isNull

structure GitHubTool where
  isRemote : Bool := false
  toolsets : List String := ["default"]
  /-- The allowed tools; all of them when empty. -/
  allowed : List String := []
  token : String := ""
  app : Option GitHubApp := none
  readOnly : Bool := true
  guard : GuardPolicy := {}
  version : String := ""
deriving Repr, Inhabited

namespace GitHubTool

def modeName (t : GitHubTool) : String := if t.isRemote then "remote" else "local"

/-- Whether a word says that the hosted server is used. -/
def readMode (mode : String) : Outcome Bool :=
  if mode == "local" then .ok false
  else if mode == "remote" then .ok true
  else .error (.mustBe "tools.github.mode" (.either "local" "remote") (some s!"'{mode}'"))

def ofEntries (es : Entries) : Outcome GitHubTool := do
  let toolsets ← texts (getD es "toolsets") "tools.github.toolsets"
  let isRemote ← readMode (← text (getD es "mode") "tools.github.mode" "local")
  let readOnly ← flag (get? es "read-only") "tools.github.read-only" true
  let allowed ← texts (getD es "allowed") "tools.github.allowed"
  let token ← text (getD es "github-token") "tools.github.github-token" ""
  let app ← GitHubApp.parse (getD es "app") "tools.github.app"
  let version ← text (getD es "version") "tools.github.version" ""
  .ok
    { isRemote
      toolsets := if toolsets.isEmpty then ["default"] else toolsets
      allowed
      token
      app
      readOnly
      guard :=
        { repos := getD es "repos", minIntegrity := getD es "min-integrity" }
      version }

def parse : Value → Outcome (Option GitHubTool)
  | .bool false => .ok none
  | .bool true => .ok (some {})
  | .null => .ok (some {})
  | v => do .ok (some (← ofEntries (← object v "tools.github")))

end GitHubTool

end FlowLock
