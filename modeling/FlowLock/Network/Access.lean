import FlowLock.Context
import FlowLock.Setting

/-!
# Network access

What an agent may reach: domains and named groups of domains, and whether a
firewall enforces it.
-/

namespace FlowLock

open Entries Setting

structure Firewall where
  /-- Set explicitly, or left to the engine. -/
  enabled : Option Bool := none
  version : String := ""
  logLevel : String := ""
deriving Repr, DecidableEq, Inhabited

structure Network where
  /-- Domains and names of groups. -/
  allowed : List String := ["defaults"]
  blocked : List String := []
  firewall : Firewall := {}
  /-- Whether the workflow, or one of its imports, says what is allowed. -/
  isExplicit : Bool := false
deriving Repr, DecidableEq, Inhabited

namespace Network

def parseFirewall (v : Value) : Outcome Firewall :=
  match v with
  | .null => .ok {}
  | .bool b => .ok { enabled := some b }
  | .str "disable" => .ok { enabled := some false }
  | v => do
    let es ← object v "network.firewall"
    let version ← text (getD es "version") "network.firewall.version" ""
    let logLevel ← text (getD es "log-level") "network.firewall.log-level" ""
    .ok { enabled := some true, version, logLevel }

/-- The entries allowed by a section; one that says nothing about them allows the
defaults, an empty one nothing. -/
def allowedSetting (es : Entries) : Value :=
  match get? es "allowed" with
  | some v => v
  | none => if es.isEmpty then .list [] else .strs ["defaults"]

def defaults (imported : List String) : Network :=
  { allowed := "defaults" :: imported.filter (· != "defaults")
    isExplicit := !imported.isEmpty }

/-- The network section of a workflow, with what imports allow. -/
def parse (v : Value) (imported : List String) : Outcome Network :=
  match v with
  | .null => .ok (defaults imported)
  | .str "defaults" => .ok (defaults imported)
  | v => do
    let es ← object v "network"
    let allowed ← texts (allowedSetting es) "network.allowed"
    let blocked ← texts (getD es "blocked") "network.blocked"
    let firewall ← parseFirewall (getD es "firewall")
    .ok { allowed := Text.union allowed imported, blocked, firewall, isExplicit := true }

def hasRestrictions (n : Network) : Bool :=
  !n.blocked.isEmpty || (n.isExplicit && n.allowed != ["defaults"])

def group? : String → Option (List String)
  | "defaults" => some
    ["crl3.digicert.com", "crl4.digicert.com", "ocsp.digicert.com", "crl.geotrust.com",
     "ocsp.geotrust.com", "json-schema.org", "json.schemastore.org", "archive.ubuntu.com",
     "security.ubuntu.com", "ppa.launchpad.net", "keyserver.ubuntu.com",
     "azure.archive.ubuntu.com", "api.snapcraft.io", "packagecloud.io",
     "packages.cloud.google.com", "packages.microsoft.com"]
  | "github" => some
    ["github.com", "api.github.com", "raw.githubusercontent.com",
     "objects.githubusercontent.com", "codeload.github.com", "uploads.github.com", "ghcr.io"]
  | "python" => some
    ["pypi.org", "pypi.python.org", "files.pythonhosted.org", "bootstrap.pypa.io",
     "conda.anaconda.org", "repo.anaconda.com"]
  | "node" => some
    ["registry.npmjs.org", "npmjs.org", "npmjs.com", "registry.yarnpkg.com", "nodejs.org"]
  | "go" => some
    ["proxy.golang.org", "sum.golang.org", "go.dev", "golang.org", "pkg.go.dev"]
  | "containers" => some
    ["registry.hub.docker.com", "auth.docker.io", "production.cloudflare.docker.com", "ghcr.io",
     "mcr.microsoft.com"]
  | "rust" => some
    ["crates.io", "index.crates.io", "static.crates.io", "static.rust-lang.org"]
  | "java" => some
    ["repo.maven.apache.org", "repo1.maven.org", "plugins.gradle.org", "services.gradle.org"]
  | _ => none

def expand (entry : String) : List String := (group? entry).getD [entry]

/-- The domains that entries stand for, with those that an engine needs: sorted, and
each once. -/
def domains (allowed engine : List String) : List String :=
  Text.sorted (Text.distinct (engine ++ allowed.flatMap expand))

/-- Whether the agent runs behind the firewall, given what its engine can do and
whether it is sandboxed. -/
def usesFirewall (n : Network) (supported sandboxed : Bool) : Bool :=
  supported && sandboxed && n.firewall.enabled.getD true

/-- A firewall that is off although access is restricted is a warning, and in strict
mode an error. -/
def checkDisabled (n : Network) (strict : Bool) : Outcome (List Warning) :=
  if n.firewall.enabled != some false || !(n.isExplicit && !n.allowed.isEmpty) then .ok []
  else if strict then
    .error (.ofMessage
      ("strict mode: cannot disable firewall when network restrictions " ++
       "(network.allowed) are set"))
  else .ok [.firewallDisabled]

end Network

end FlowLock
