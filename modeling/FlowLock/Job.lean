import FlowLock.Permission
import FlowLock.Table

/-!
# Jobs

A job of a compiled workflow, and its place in the lock file.
-/

namespace FlowLock

structure Job where
  name : String
  /-- The jobs that this one waits for. -/
  needs : List String := []
  /-- The condition under which it runs, without the marks of an expression. -/
  condition : String := ""
  runsOn : Value := .str "ubuntu-latest"
  permissions : Permissions := .empty
  timeoutMinutes : Option Int := none
  concurrency : Value := .null
  environment : Table Value := []
  outputs : Table Value := []
  steps : List Value := []
deriving Repr, Inhabited

namespace Job

/-- The jobs waited for in the lock file: a single one stands for itself. -/
def needsEntry : List String → List (String × Value)
  | [] => []
  | [name] => [("needs", .str name)]
  | names => [("needs", .strs names)]

/-- The job as a mapping, its keys in the order of a lock file. -/
def toValue (job : Job) : Value :=
  .obj
    (needsEntry job.needs ++
     (if job.condition.isEmpty then [] else [("if", .str job.condition)]) ++
     [("runs-on", job.runsOn), ("permissions", job.permissions.toValue)] ++
     (if job.concurrency.isNull then [] else [("concurrency", job.concurrency)]) ++
     (if job.environment.isEmpty then [] else [("env", .obj job.environment.sorted)]) ++
     (match job.timeoutMinutes with
       | some minutes => [("timeout-minutes", .int minutes)]
       | none => []) ++
     (if job.outputs.isEmpty then [] else [("outputs", .obj job.outputs)]) ++
     [("steps", .list job.steps)])

end Job

end FlowLock
