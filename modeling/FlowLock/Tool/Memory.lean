import FlowLock.Setting

/-!
# Memory tools

What an agent can keep from one run to the next: caches, and a branch of a
repository.
-/

namespace FlowLock

open Entries Setting

/-- A cache that is restored before the agent runs and saved after it. -/
structure CacheMemory where
  id : String := "default"
  /-- The key of the cache; made from the workflow when empty. -/
  key : String := ""
  /-- How long to keep its artifact, as it was declared. -/
  retentionDays : Value := .null
  /-- Whether the cache is never saved. -/
  restoreOnly : Bool := false
deriving Repr, Inhabited

namespace CacheMemory

def parse (index : Nat) (item : Value) : Outcome CacheMemory := do
  let es ← object item s!"tools.cache-memory[{index}]"
  let restoreOnly ← flag (get? es "restore-only")
    "tools.cache-memory.restore-only" false
  let id ← text (getD es "id") "tools.cache-memory.id" "default"
  let key ← text (getD es "key") "tools.cache-memory.key" ""
  .ok { id, key, retentionDays := getD es "retention-days", restoreOnly }

def parseItems : Nat → List Value → Outcome (List CacheMemory)
  | _, [] => .ok []
  | index, item :: items => do
    let cache ← parse index item
    let caches ← parseItems (index + 1) items
    .ok (cache :: caches)

/-- The caches of a section, whose names have to differ. -/
def parseAll : Value → Outcome (List CacheMemory)
  | .bool false => .ok []
  | .bool true => .ok [{}]
  | .null => .ok [{}]
  | v => do
    let caches ← parseItems 0 (v.items?.getD [v])
    let ids := caches.map (·.id)
    if (Text.distinct ids).length == ids.length then .ok caches
    else .error (.schema "tools.cache-memory" .repeatedCacheIds)

end CacheMemory

/-- Memory that is kept on a branch.  The limits are kept as they were declared. -/
structure RepoMemory where
  branch : String := "memory/default"
  /-- The repository of the branch; the workflow's own when empty. -/
  repository : String := ""
  maxFileSize : Value := .null
  maxFileCount : Value := .null
deriving Repr, Inhabited

namespace RepoMemory

/-- The memory of a section, none when it is turned off. -/
def parse : Value → Outcome (Option RepoMemory)
  | .bool false => .ok none
  | .bool true => .ok (some {})
  | .null => .ok (some {})
  | v => do
    let es ← object v "tools.repo-memory"
    let branch ← text (getD es "branch-name") "tools.repo-memory.branch-name"
      "memory/default"
    let repository ← text (getD es "target-repo")
      "tools.repo-memory.target-repo" ""
    .ok (some
      { branch
        repository
        maxFileSize := getD es "max-file-size"
        maxFileCount := getD es "max-file-count" })

end RepoMemory

end FlowLock
