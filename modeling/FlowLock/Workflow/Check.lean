import FlowLock.Engine.Basic
import FlowLock.Workflow.Basic

/-!
# Checks of a workflow

What has to hold of a workflow beyond the shape of its sections.  All that is wrong
is told at once.  Strict mode asks for more; what is only unwise is a warning.
-/

namespace FlowLock

open Text

namespace Check

/-- What is wrong with a number that has to lie between two others. -/
def intRange (n low high : Int) (field : String) : Option String :=
  if n < low || high < n then some s!"{field} must be between {low} and {high}, got {n}" else none

/-- What is wrong with a setting that has to be such a number, when it is set. -/
def intField (v : Value) (low high : Int) (field : String) : Option String :=
  match v with
  | .null => none
  | .int n => intRange n low high field
  | v => some s!"{field} must be an integer, got {v.literal}"

/-- What is wrong with a mount, which is a source, a destination and a mode. -/
def mount (v : Value) (field : String) : Option String :=
  match v with
  | .str text =>
    match splitOn text ':' with
    | [source, destination, mode] =>
      if source.isEmpty || destination.isEmpty then
        some s!"invalid mount '{text}' in {field}: source and destination must not be empty"
      else if mode == "ro" || mode == "rw" then none
      else some s!"invalid mount '{text}' in {field}: mode must be 'ro' or 'rw', got '{mode}'"
    | _ =>
      some (s!"invalid mount '{text}' in {field}: must follow 'source:destination:mode' " ++
        "format with exactly 3 colon-separated parts")
  | v => some s!"invalid mount in {field}: must be a string, got {v.kindName}"

/-! ## Guard policies -/

/-- Whether a text is a run of characters of a class; one line feed at its end does not
count. -/
def isLine (p : Char → Bool) (s : String) : Bool :=
  let text := if endsWith s "\n" then dropLastChars s 1 else s
  !text.isEmpty && text.toList.all p

def isOwnerChar (c : Char) : Bool :=
  ('a' ≤ c && c ≤ 'z') || isAsciiDigit c || c == '_' || c == '-'

/-- What is wrong with the part of a pattern that names repositories of an owner. -/
def repositoryName (name : String) : Option String :=
  if name.isEmpty then some "has empty repository name"
  else if hasChar (dropLastChars name 1) '*' then
    some "has wildcard in the middle. Wildcards only allowed at the end (e.g., 'prefix*')"
  else
    let plain := if endsWith name "*" then dropLastChars name 1 else name
    if plain.isEmpty || isLine (fun c => isOwnerChar c || c == '.') plain then none
    else
      some ("has invalid repository name. Must contain only lowercase letters, " ++
        "numbers, hyphens, underscores, or be '*' or 'prefix*'")

def repositoryFault? (pattern : String) : Option String :=
  if pattern != lower pattern then some "must be lowercase"
  else
    match splitOn pattern '/' with
    | [owner, name] =>
      if owner.isEmpty then some "has empty owner"
      else if !isLine isOwnerChar owner then
        some ("has invalid owner. Must contain only lowercase letters, numbers, " ++
          "hyphens, and underscores")
      else repositoryName name
    | _ => some "must be in format 'owner/repo', 'owner/*', or 'owner/prefix*'"

/-- The message about a pattern for repositories, when something is wrong with it. -/
def repository (pattern : String) : Option String :=
  (repositoryFault? pattern).map fun fault =>
    s!"invalid guard policy: repository pattern '{pattern}' {fault}"

/-- What is wrong with a list of patterns; the first item that is no text ends the
list. -/
def repositories : List Value → List String
  | [] => []
  | .str pattern :: rest => (repository pattern).toList ++ repositories rest
  | _ :: _ => ["invalid guard policy: 'github.repos' array must contain only strings"]

def guardRepos (v : Value) : List String :=
  match v.opened with
  | .null =>
    ["invalid guard policy: 'github.repos' is required. Use 'all', 'public', or an " ++
     "array of repository patterns (e.g., ['owner/repo', 'owner/*'])"]
  | .str word =>
    if word == "all" || word == "public" then []
    else
      ["invalid guard policy: 'github.repos' string must be 'all' or 'public'. " ++
       s!"Got: '{word}'"]
  | .list [] =>
    ["invalid guard policy: 'github.repos' array cannot be empty. " ++
     "Provide at least one repository pattern"]
  | .list items => repositories items
  | _ =>
    ["invalid guard policy: 'github.repos' must be 'all', 'public', or an array of " ++
     "repository patterns"]

def guardIntegrity : Value → List String
  | .null =>
    ["invalid guard policy: 'github.min-integrity' is required. " ++
     "Valid values: 'none', 'reader', 'writer', 'merged'"]
  | v =>
    if ["none", "reader", "writer", "merged"].any v.isStr then []
    else
      ["invalid guard policy: 'github.min-integrity' must be one of: " ++
       s!"'none', 'reader', 'writer', 'merged'. Got: '{v.plain}'"]

def guard (policy : GuardPolicy) : List String :=
  guardRepos policy.repos ++ guardIntegrity policy.minIntegrity

/-! ## Sections -/

def shell (tools : Tools) : List String :=
  match Entries.get? tools.declared "bash" with
  | some .null | some (.map []) =>
    ["invalid bash tool configuration: anonymous syntax 'bash:' is not supported. " ++
     "Use 'bash: true' (enable all commands), 'bash: false' (disable), or " ++
     "'bash: [\"cmd1\", \"cmd2\"]' (specific commands). " ++
     "Run 'gh aw fix' to automatically migrate"]
  | _ => []

def gitHub (tool : GitHubTool) : List String :=
  (if tool.app.isSome && !tool.token.isEmpty then
    ["invalid GitHub tool configuration: 'tools.github.app' and 'tools.github.github-token' " ++
     "cannot both be set. Use one authentication method: either 'app' (GitHub App) or " ++
     "'github-token' (personal access token)"]
   else []) ++
  (if tool.guard.isSet then guard tool.guard else [])

def server (name : String) (s : ToolServer) : List String :=
  (intField s.port 1 65535 s!"{name} port").toList ++
  s.mounts.filterMap fun v => mount v s!"tools.{name}.mounts"

def tools (w : Workflow) : List String :=
  shell w.tools ++
  w.tools.github.toList.flatMap gitHub ++
  (w.tools.caches.filterMap fun c =>
    intField c.retentionDays 1 90 "cache-memory retention-days") ++
  (w.tools.repoMemory.toList.filterMap fun m =>
    intField m.maxFileSize 1 104857600 "repo-memory max-file-size") ++
  (w.tools.servers.flatMap fun e => server e.1 e.2) ++
  w.engine.sandbox.mounts.filterMap fun v => mount v "sandbox.agent.mounts"

def output (o : SafeOutput.Output) : List String :=
  (if o.target.repository == "*" && !o.kind.spec.anyRepository then
    [s!"safe-outputs.{o.kind.key}: target-repo \"*\" is not allowed; " ++
     "use an explicit 'owner/repo' or 'allowed-repos'"]
   else []) ++
  (if o.kind == .dispatchWorkflow && (o.texts "workflows").isEmpty then
    ["safe-outputs.dispatch-workflow: 'workflows' must list at least one workflow to dispatch"]
   else [])

def outputs (w : Workflow) : List String :=
  w.safeOutputs.toList.flatMap fun s => s.outputs.flatMap output

def isWriting (level : Level) : Bool := level == .write || level == .admin

def strict (w : Workflow) : List String :=
  (w.permissions.grants.filter fun g => g.1 != .idToken && isWriting g.2).map (fun g =>
    s!"strict mode: write permission '{g.1.name}: {g.2.name}' is not allowed for the agent " ++
    "job. Use safe-outputs to perform write operations instead") ++
  (if w.network.allowed.contains "*" then
    ["strict mode: wildcard '*' is not allowed in network.allowed"]
   else [])

/-- Whether the network restrictions are enforced: a warning when they are not, and in
strict mode an error. -/
def networkSupport (w : Workflow) (engine : Engine) (strict : Bool) :
    Outcome (List Warning) := do
  let warnings ← w.network.checkDisabled strict
  if !w.network.hasRestrictions || engine.profile.supportsFirewall then .ok warnings
  else if strict then
    .error (.ofMessage
      (s!"strict mode: engine '{engine.id}' does not support the network firewall; " ++
       "network restrictions cannot be enforced"))
  else .ok (warnings ++ [.noFirewall engine.id])

def experimental (w : Workflow) (engine : Engine) : List Warning :=
  (if engine.profile.isExperimental then
    [.experimental s!"{engine.profile.name} engine"]
   else []) ++
  (if w.tools.github.any fun tool => tool.guard.isSet then
    [.experimental "GitHub guard policy"]
   else [])

end Check

/-- All checks of a workflow, with the warnings, which are given also when a check
fails. -/
def Workflow.check (w : Workflow) (engine : Engine) (strict : Bool) :
    Outcome Unit × List Warning :=
  let findings := (({} : Findings).addAll (Check.tools w ++ Check.outputs w)).addAll
    (if strict then Check.strict w else [])
  let warnings := Check.experimental w engine
  match Check.networkSupport w engine strict with
  | .ok more => (findings.report, warnings ++ more)
  | .error (.invalid kind messages) => ((findings.extend kind messages).report, warnings)
  | .error e => (.error e, warnings)

end FlowLock
