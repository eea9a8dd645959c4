import FlowLock.Job

/-!
# Job graphs

The jobs of a workflow in the order in which they are written.  Names are
distinct, and a graph is valid when every job waits only for jobs before it, so
that the order of writing is an order in which the jobs can run.
-/

namespace FlowLock

/-- Jobs in the order of writing. -/
structure JobGraph where
  jobs : List Job := []
deriving Repr, Inhabited

inductive DependencyFault where
  | unknown (job dependency : String)
  | notBefore (job dependency : String)
deriving Repr, DecidableEq

def DependencyFault.message : DependencyFault → String
  | .unknown job dependency => s!"job '{job}' depends on unknown job '{dependency}'"
  | .notBefore job dependency =>
    s!"job '{job}' depends on '{dependency}', which is not emitted before it"

namespace JobGraph

def names (g : JobGraph) : List String := g.jobs.map (·.name)

def get? (g : JobGraph) (name : String) : Option Job := g.jobs.find? fun j => j.name == name

def add (g : JobGraph) (job : Job) : Outcome JobGraph :=
  if g.names.contains job.name then .error (.ofMessage s!"duplicate job name: {job.name}")
  else .ok ⟨g.jobs ++ [job]⟩

def dependencyFault? (all before : List String) (job dependency : String) :
    Option DependencyFault :=
  if !all.contains dependency then some (.unknown job dependency)
  else if !before.contains dependency then some (.notBefore job dependency)
  else none

/-- What is wrong with the dependencies of jobs, the names before them given. -/
def faultsFrom (all : List String) : List String → List Job → List DependencyFault
  | _, [] => []
  | before, job :: jobs =>
    job.needs.filterMap (dependencyFault? all before job.name) ++
      faultsFrom all (before ++ [job.name]) jobs

def faults (g : JobGraph) : List DependencyFault := faultsFrom g.names [] g.jobs

/-- Nothing when every dependency comes before its dependent, otherwise all
faults. -/
def validate (g : JobGraph) : Outcome Unit :=
  match g.faults with
  | [] => .ok ()
  | faults => .error (.invalid .validation (faults.map (·.message)))

def toValue (g : JobGraph) : Outcome Value := do
  g.validate
  .ok (.obj (g.jobs.map fun job => (job.name, job.toValue)))

def permissions (g : JobGraph) : Permissions := .joinAll (g.jobs.map (·.permissions))

end JobGraph

end FlowLock
