import FlowLock.Job
import FlowLock.Step
import FlowLock.Workflow.Basic

/-!
# Memory between runs

How an agent's memory is carried from run to run.  A cache is restored before the
agent runs and saved afterwards; memory on a branch is cloned before and pushed by a
job of its own.
-/

namespace FlowLock

open Step

namespace Memory

def cacheDirectory : String := "/tmp/gh-aw/cache-memory"

def branchDirectory : String := "/tmp/gh-aw/repo-memory/default"

def runId : String := expression "github.run_id"

def branchArtifact : String := "repo-memory-default"

end Memory

namespace CacheMemory

open Memory

/-- Whether a cache is the one without a name of its own. -/
def isDefault (c : CacheMemory) : Bool := c.id == "default"

def folder (c : CacheMemory) : String :=
  if c.isDefault then cacheDirectory else s!"{cacheDirectory}-{c.id}"

def cacheKey (c : CacheMemory) : String :=
  let key :=
    if !c.key.isEmpty then c.key
    else if c.isDefault then "memory-" ++ expression "github.workflow"
    else s!"memory-{c.id}-" ++ expression "github.workflow"
  if Text.endsWith key runId then key else s!"{key}-{runId}"

/-- The start of a key by which caches of earlier runs are found. -/
def restoreKey (key : String) : String :=
  let start := Text.dropLastChars key runId.length
  if Text.endsWith start "-" then start else start ++ "-"

def steps (c : CacheMemory) (ctx : Context) : Outcome (List Value) := do
  let label := if c.isDefault then "cache-memory" else s!"cache-memory ({c.id})"
  let verb := if c.restoreOnly then "Restore" else "Cache"
  let uses ← ctx.pin (if c.restoreOnly then "actions/cache/restore" else "actions/cache")
  .ok
    [run s!"Create {label} directory"
      s!"mkdir -p {c.folder}\necho \"Cache memory directory: {c.folder}\"\n",
     .obj
      [("name", .str s!"{verb} {label} file share data"),
       ("uses", .str uses),
       ("with", texts
        [("key", c.cacheKey), ("path", c.folder), ("restore-keys", restoreKey c.cacheKey)])]]

end CacheMemory

namespace Memory

def cacheSteps (w : Workflow) (ctx : Context) : Outcome (List Value) := do
  .ok (← w.tools.caches.mapM fun c => c.steps ctx).flatten

def withInput (key : String) (value : Value) (step : Value) : Value :=
  match step with
  | .map es =>
    .map (es.map fun e =>
      if e.1.isStr "with" then
        (e.1, match e.2 with
          | .map inputs => .map (Entries.set inputs key value)
          | v => v)
      else e)
  | v => v

def cacheUploads (w : Workflow) (ctx : Context) : Outcome (List Value) :=
  (w.tools.caches.filter fun c => !c.retentionDays.isNull && !c.restoreOnly).mapM fun c => do
    let artifact := if c.isDefault then "cache-memory" else s!"cache-memory-{c.id}"
    let step ← upload ctx s!"Upload {artifact} data as artifact" artifact [c.folder] "warn"
      "always()"
    .ok (withInput "retention-days" c.retentionDays step)

def repositoryOf (m : RepoMemory) : String :=
  if m.repository.isEmpty then expression "github.repository" else m.repository

def cloneSteps (w : Workflow) : List Value :=
  w.tools.repoMemory.toList.map fun m =>
    .obj
      [("name", .str "Clone repo-memory branch (default)"),
       ("env", texts
        [("BRANCH_NAME", m.branch), ("GH_TOKEN", expression "github.token"),
         ("MEMORY_DIR", branchDirectory), ("TARGET_REPO", repositoryOf m)]),
       ("run", .str s!"bash {Step.actionsDirectory}/clone_repo_memory_branch.sh\n")]

def branchUploads (w : Workflow) (ctx : Context) : Outcome (List Value) :=
  if w.tools.repoMemory.isNone then .ok []
  else do
    .ok [← upload ctx "Upload repo-memory artifact (default)" branchArtifact
      [branchDirectory] "ignore" "always()"]

def limitVariable (name : String) (v : Value) : Table Value :=
  if v.isNull then [] else [(name, .str v.plain)]

def pushJobName : String := "push_repo_memory"

def pushJob (m : RepoMemory) (ctx : Context) : Outcome Job := do
  let setup ← setup ctx
  let checkout ← ctx.pin "actions/checkout"
  let fetch ← download ctx "Download repo-memory artifact (default)" branchArtifact
    branchDirectory
  let push ← script ctx
    { name := "Push repo-memory changes (default)"
      handler := "push_repo_memory"
      environment :=
        [("BRANCH_NAME", .str m.branch), ("MEMORY_DIR", .str branchDirectory),
         ("TARGET_REPO", .str (repositoryOf m))] ++
        limitVariable "MAX_FILE_SIZE" m.maxFileSize ++
        limitVariable "MAX_FILE_COUNT" m.maxFileCount
      token := expression "github.token" }
  .ok
    { name := pushJobName
      needs := ["agent"]
      condition := "always() && needs.agent.result == 'success'"
      permissions := .ofGrants [(.contents, .write)]
      timeoutMinutes := some 10
      steps := setup ++
        [.obj
          [("name", .str "Checkout repository"),
           ("uses", .str checkout),
           ("with", .obj
            [("persist-credentials", .bool false), ("sparse-checkout", .str ".\n")])],
         fetch, push] }

def pushJob? (w : Workflow) (ctx : Context) : Outcome (Option Job) :=
  match w.tools.repoMemory with
  | none => .ok none
  | some m => do .ok (some (← pushJob m ctx))

end Memory

end FlowLock
