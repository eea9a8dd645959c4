import FlowLock.Compile
import FlowLock.Proofs.Workflow.Jobs

/-!
# What a lock file is made of

A source has a lock file when its workflow can be read, passes the checks and all its jobs
can be built.  The lock file is then written from a few entries of the workflow and from the
jobs.
-/

namespace FlowLock

open Outcome

namespace Workflow

variable {w : Workflow} {engine : Engine} {ctx : Context} {warnings : List Warning}

def head (w : Workflow) (permissions : Permissions) : List (String × Value) :=
  [("name", .str w.name),
   ("on", w.writtenOn (SafeOutputs.injectOutputs w.on w.safeOutputs)),
   ("permissions", permissions.toValue),
   ("concurrency", if w.concurrency.isNull then defaultConcurrency else w.concurrency),
   ("run-name", .str w.name)] ++ Mcp.environmentEntry (Table.sorted w.environment)

def written (head : List (String × Value)) (jobs : List Job) : Value :=
  .obj (head ++ [("jobs", .obj (jobs.map fun job => (job.name, job.toValue)))])

theorem validate_of_jobs {graph : JobGraph} (h : w.jobs engine ctx = .ok (graph, warnings)) :
    graph.validate = .ok () := by
  obtain ⟨_, _, hjobs, -, horder⟩ := jobs_outline (buildersSucceed_of_jobs h)
  cases hjobs.symm.trans h
  exact (JobGraph.validate_eq_ok_iff graph).mpr horder

theorem compiled_eq_ok {v : Value} : w.compiled engine ctx = .ok (v, warnings) ↔
      ∃ graph, w.jobs engine ctx = .ok (graph, warnings) ∧
        v = written (w.head graph.permissions) graph.jobs := by
  have hvalue : ∀ {graph found}, w.jobs engine ctx = .ok (graph, found) →
      graph.toValue = .ok (.obj (graph.jobs.map fun job => (job.name, job.toValue))) := by
    intro graph found hjobs
    rw [JobGraph.toValue, validate_of_jobs hjobs]
    rfl
  constructor
  · intro h
    obtain ⟨⟨graph, found⟩, hjobs, h⟩ := bind_eq_ok.mp h
    dsimp only at h
    rw [hvalue hjobs] at h
    cases h
    exact ⟨graph, hjobs, rfl⟩
  · rintro ⟨graph, hjobs, rfl⟩
    rw [compiled, hjobs, ok_bind]
    dsimp only
    rw [hvalue hjobs]
    rfl

/-- Where some parts of a workflow come from. -/
structure BuiltFrom (settings : Entries) (imports : Imports) (w : Workflow) : Prop where
  permissions : parsePermissions settings imports = .ok w.permissions
  network : Network.parse (Entries.getD settings "network") imports.domains = .ok w.network
  description :
    Setting.text (Entries.getD settings "description") "description" "" = .ok w.description
  imports : w.imports = imports

theorem builtFrom_of_build {settings : Entries} {body digest : String} {source : Path}
    {imports : Imports} {mode : ActionMode}
    (h : build settings body source imports mode digest = .ok w) :
    BuiltFrom settings imports w := by
  simp only [build, bind_eq_ok] at h
  obtain ⟨permissions, hpermissions, features, -, inlines, -, strict, -, steps, -, on, -, engine, -,
    tools, -, network, hnetwork, checkouts, -, outputs, -, description, hdescription, tracker, -,
    version, -, environment, -, postSteps, -, timeout, -, condition, -, inputs, -, h⟩ := h
  cases h
  exact ⟨hpermissions, hnetwork, hdescription, rfl⟩

end Workflow

namespace Compile

variable {tree : FileTree} {request : Request} {source : Path} {result : Result}

def headerOf (tree : FileTree) (request : Request) (source : Path) (w : Workflow) :
    LockFile.Header :=
  { hash := w.digest
    version := request.config.compilerVersion
    source := shownSource tree.workdir source
    description := w.description
    workflowVersion := w.version }

theorem render_eq_ok : render tree request source = .ok result ↔
      ∃ w engine warnings more graph, isSource source ∧ workflowOf tree request source = .ok w ∧
        Engine.read w.engine.id = .ok engine ∧
        checked (contextOf request w) engine w = .ok warnings ∧
        w.jobs engine (contextOf request w) = .ok (graph, more) ∧
        (Workflow.written (w.head graph.permissions) graph.jobs).isFinite ∧
        result =
          { source
            lockPath := LockFile.pathOf source
            content := LockFile.render (headerOf tree request source w)
              (Workflow.written (w.head graph.permissions) graph.jobs)
            warnings := warnings ++ more } := by
  unfold render
  constructor
  · intro h
    split at h
    · cases h
    · next hsource =>
      simp only [bind_eq_ok] at h
      obtain ⟨w, hw, engine, hengine, warnings, hwarnings, ⟨v, more⟩, hcompiled, h⟩ := h
      obtain ⟨graph, hjobs, rfl⟩ := Workflow.compiled_eq_ok.mp hcompiled
      dsimp only at h
      split at h
      · next hfinite =>
        cases h
        exact ⟨w, engine, warnings, more, graph, by simpa using hsource, hw, hengine, hwarnings,
          hjobs, hfinite, rfl⟩
      · cases h
  · rintro ⟨w, engine, warnings, more, graph, hsource, hw, hengine, hwarnings, hjobs, hfinite, rfl⟩
    have hcompiled := Workflow.compiled_eq_ok.mpr ⟨graph, hjobs, rfl⟩
    rw [if_neg (by simp [hsource]), hw, ok_bind, hengine, ok_bind, hwarnings, ok_bind, hcompiled,
      ok_bind]
    dsimp only
    rw [if_pos hfinite]
    rfl

theorem lockPath_of_render (h : render tree request source = .ok result) :
    result.lockPath = LockFile.pathOf source ∧ result.written = false := by
  obtain ⟨w, engine, warnings, more, graph, -, -, -, -, -, -, rfl⟩ := render_eq_ok.mp h
  exact ⟨rfl, rfl⟩

end Compile

end FlowLock
