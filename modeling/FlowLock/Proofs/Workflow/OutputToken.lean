import FlowLock.Proofs.SafeOutput.Processing
import FlowLock.Proofs.Workflow.Environments

/-!
# The token of a safe-output type stays with its handler

Two workflows that differ in the token of one safe-output type are compared as a whole.  The
builders of jobs read the types for their names, limits, permissions and outputs, but not for
their tokens; only the processing job has them, in the text for its handlers.  So the jobs of
the two workflows are the same one by one, that text apart.
-/

namespace FlowLock

open Outcome SafeOutput List SafeOutputs Value

namespace Workflow

def withToken (w : Workflow) (kind : Kind) (token : String) : Workflow :=
  { w with safeOutputs := w.safeOutputs.map (·.withToken kind token) }

end Workflow

/-! ## Jobs that have no tokens -/

theorem SafeOutputs.seenAlike_withToken (kind : Kind) (token : String) (s : SafeOutputs) :
    s.SeenAlike (s.withToken kind token) where
  kinds := map_map
  staged := rfl
  limits := by
    rw [Workflow.outputLimits, withToken, mapM_map]
    rfl
  noop := by
    have hget : (s.withToken kind token).get? .noop =
        (s.get? .noop).map (Output.withToken kind token) := find?_map
    rw [hget, Option.map_map]
    rfl
  permissions := jobPermissions_withToken s kind token
  exposed := exposed_withToken s kind token
  messages := rfl
  runsOn := rfl

theorem Workflow.withToken_eq (w : Workflow) (kind : Kind) (token : String) :
    w.withToken kind token = w.withOutputs (·.withToken kind token) := rfl

/-! ## All jobs -/

namespace SafeOutputs

theorem reports_withToken {kind : Kind} (h : kind.isReport = false) (s : SafeOutputs)
    (token : String) : (s.withToken kind token).reports = s.reports := by
  have hreports : (s.withToken kind token).reports =
      s.reports.map (Output.withToken kind token) := filter_map
  rw [hreports]
  refine (map_congr_left fun o ho => ?_).trans (map_id _)
  refine Output.withToken_of_ne (fun heq => ?_) token
  have hreport : o.kind.isReport := (mem_filter.mp ho).2
  rw [heq, h] at hreport
  cases hreport

theorem reportJob_withToken (s : SafeOutputs) (kind : Kind) (token : String) :
    (s.withToken kind token).reportJob = s.reportJob := by
  funext ctx o name id tracker
  rw [reportJob, processingToken_withToken]
  rfl

end SafeOutputs

/-- A job of one workflow beside that of another one: they are the same to the other jobs, and
written in the same way, but for a text at a place of the processing job. -/
structure Job.Retold (place : List Turn) (text : String) (job job' : Job) : Prop where
  outline : job'.outline = job.outline
  toValue : job'.toValue =
    if job.name = jobName then job.toValue.put place (.str text) else job.toValue

namespace Job.Retold

variable {place : List Turn} {text : String}

theorem same {job : Job} (h : job.name ≠ jobName) : Retold place text job job :=
  ⟨rfl, (if_neg h).symm⟩

theorem keepsOutline : KeepsOutline (Retold place text) := fun _ _ h => h.outline

end Job.Retold

namespace Workflow

variable {w : Workflow} {engine : Engine} {ctx : Context} {s : SafeOutputs} {o : Output}

section Retold

variable {token text : String} {place : List Turn} {job job' : Job}

theorem lifts_outputJobs_withToken (hs : w.safeOutputs = some s) (ho : o ∈ s.handled)
    (hjob : s.job? ctx w.name w.id w.tracker = .ok (some job))
    (hjob' : (s.withToken o.kind token).job? ctx w.name w.id w.tracker = .ok (some job'))
    (h : job.Retold place text job') :
    Lifts (Forall₂ (Job.Retold place text)) (w.outputJobs ctx)
      ((w.withToken o.kind token).outputJobs ctx) := by
  have hs' : (w.withToken o.kind token).safeOutputs = some (s.withToken o.kind token) := by
    rw [withToken, hs]
    rfl
  have hkind : o.kind.isReport = false := by simpa using (mem_filter.mp ho).2
  intro outputs houtputs
  obtain ⟨found, reports, hfound, hreports, rfl⟩ := outputJobs_eq_ok hs houtputs
  obtain rfl : some job = found := Except.ok.inj (hjob.symm.trans hfound)
  refine ⟨job' :: reports, ?_, .cons h ?_⟩
  · simp only [outputJobs, hs']
    rw [reports_withToken hkind, reportJob_withToken]
    change (s.withToken o.kind token).job? ctx w.name w.id w.tracker >>= _ = _
    rw [hjob', ok_bind]
    change s.reports.mapM (fun o => s.reportJob ctx o w.name w.id w.tracker) >>= _ = _
    rw [hreports]
    rfl
  · refine forall₂_same.mpr (Gives.mapM (fun o ho job hjob => .same ?_) reports hreports)
    have hname : job.name = (reportOutline o).name :=
      congrArg Job.Outline.name (outline_reportJob hjob)
    obtain hreport | hreport := name_of_mem_reports ho <;> rw [hname, hreport] <;> decide

theorem lifts_jobs_withToken (hs : w.safeOutputs = some s) (ho : o ∈ s.handled)
    (hjob : s.job? ctx w.name w.id w.tracker = .ok (some job))
    (hjob' : (s.withToken o.kind token).job? ctx w.name w.id w.tracker = .ok (some job'))
    (h : job.Retold place text job') :
    Lifts (fun built built' =>
        JobGraph.Alike (Job.Retold place text) built.1 built'.1 ∧ built.2 = built'.2)
      (w.jobs engine ctx) ((w.withToken o.kind token).jobs engine ctx) := by
  have hseen := seenAlike_withToken o.kind token
  have hself : ∀ {job : Job} {outline : Job.Outline}, job.outline = outline →
      outline.name ≠ jobName → job.Retold place text job :=
    fun houtline hname => .same ((congrArg Job.Outline.name houtline).trans_ne hname)
  have hselfOption : ∀ {found : Option Job} {α : Type} {absent : Option α} {outline : Job.Outline},
      found.map (·.outline) = absent.map (fun _ => outline) →
      outline.name ≠ jobName → Option.Rel (Job.Retold place text) found found := by
    intro found α absent outline houtline hname
    cases found with
    | none => exact .none
    | some job =>
      obtain ⟨_, -, heq⟩ := Option.map_eq_some_iff.mp houtline.symm
      exact .some (hself heq.symm hname)
  refine lifts_jobs Job.Retold.keepsOutline ?_ ?_ (lifts_outputJobs_withToken hs ho hjob hjob' h) ?_
    fun needs => ?_
  · rw [withToken_eq, activationJob_withOutputs hseen]
    exact Lifts.same fun job hjob =>
      hself (outline_activationJob hjob) (by decide : "activation" ≠ jobName)
  · rw [withToken_eq, agentJob_withOutputs hseen]
    exact Lifts.same fun built hbuilt =>
      ⟨hself (outline_agentJob hbuilt) (by decide : "agent" ≠ jobName), rfl⟩
  · exact Lifts.same fun found hfound =>
      hselfOption (Memory.pushJob?_eq_ok hfound) (by decide)
  · rw [withToken_eq, conclusionJob?_withOutputs hseen]
    exact Lifts.same fun found hfound =>
      hselfOption (conclusionJob?_eq_ok hfound) (by decide : "conclusion" ≠ jobName)

end Retold

/-! ## What is written -/

def handlersPlace (index : Nat) : List Turn :=
  .key "jobs" :: .key jobName :: jobPlace index

theorem jobs_not_mem_head (w : Workflow) (permissions : Permissions) :
    "jobs" ∉ Table.keys (w.head permissions) := by
  have henvironment : "jobs" ∉ Table.keys (Mcp.environmentEntry (Table.sorted w.environment)) := by
    unfold Mcp.environmentEntry
    split
    · exact not_mem_nil
    · exact Table.not_mem_keys_singleton (by decide) _
  rw [head, Table.keys_append, mem_append, not_or]
  exact ⟨by simp [Table.keys], henvironment⟩

theorem written_of_retold {place : List Turn} {text : String} {graph graph' : JobGraph}
    (h : JobGraph.Alike (Job.Retold place text) graph graph') {head : List (String × Value)}
    (hhead : "jobs" ∉ Table.keys head) :
    written head graph'.jobs = (written head graph.jobs).put
      (.key "jobs" :: .key jobName :: place) (.str text) := by
  have hjobs : graph'.jobs.map (fun job => (job.name, job.toValue)) =
      (graph.jobs.map fun job => (job.name, job.toValue)).map fun e =>
        if e.1 = jobName then (e.1, e.2.put place (.str text)) else e := by
    rw [map_map]
    refine map_eq_of_forall₂ (fun job job' hjob => ?_) h
    have hname : job'.name = job.name := congrArg Job.Outline.name hjob.outline
    rw [Function.comp_apply, hname, hjob.toValue]
    split <;> rfl
  rw [written, written, put_obj, map_append, map_of_not_mem hhead,
    map_singleton, if_pos rfl, put_obj, hjobs]

theorem at?_written {graph : JobGraph} {warnings : List Warning}
    (h : w.jobs engine ctx = .ok (graph, warnings)) {job : Job} (hjob : job ∈ graph.jobs)
    (place : List Turn) :
    (written (w.head graph.permissions) graph.jobs).at? (.key "jobs" :: .key job.name :: place) =
      job.toValue.at? place := by
  have hkeys : (Table.keys (graph.jobs.map fun job => (job.name, job.toValue))).Nodup := by
    obtain ⟨_, _, hjobs, houtline, -⟩ := jobs_outline (buildersSucceed_of_jobs h)
    cases hjobs.symm.trans h
    rw [Table.keys, map_map]
    change (graph.jobs.map (·.name)).Nodup
    rw [← Job.map_name_outline, houtline, names_outlines]
    exact nodup_jobNames w
  have hget := Table.get?_of_mem hkeys (mem_map_of_mem hjob)
  rw [written, at?_obj_of_not_mem (jobs_not_mem_head w _), at?_obj, hget]
  rfl

/-- **The token of a type stays with its handler.**  Whatever a workflow that can be compiled
and a type that its processing job carries out: the workflow can be compiled with any other
token of the type, with the same warnings, and what is written differs only in the text for
the handlers, which stands in the environment of the step that carries out safe outputs.  From
that text the handlers read the same, but for the token of the handler of the type: it has
the token when there is one. -/
theorem token_stays_with_handler {v : Value} {warnings : List Warning}
    (hs : w.safeOutputs = some s) (ho : o ∈ s.handled)
    (h : w.compiled engine ctx = .ok (v, warnings)) :
    ∃ (around : SafeOutputs.Surroundings o.kind) (index : Nat) (text : String),
      v.at? [.key "jobs", .key jobName, .key "steps", .item index, .key "id"] =
        some (.str stepId) ∧
      v.at? (handlersPlace index) = some (.str text) ∧
      Json.decode? text = some (around.config (Text.joined o.token)) ∧
      ∀ token, ∃ last, (w.withToken o.kind token).compiled engine ctx =
          .ok (v.put (handlersPlace index) (.str last), warnings) ∧
        Json.decode? last = some (around.config (Text.joined token)) := by
  obtain ⟨graph, hjobs, rfl⟩ := compiled_eq_ok.mp h
  obtain ⟨activation, agent, outputs, push, needs, conclusion, -, -, houtputs, -, -, hgraph⟩ :=
    jobs_eq_ok hjobs
  obtain ⟨found, reports, hfound, -, rfl⟩ := outputJobs_eq_ok hs houtputs
  obtain ⟨around, index, job, haround, hid, houtline, hall⟩ := exists_job? ho hfound
  obtain ⟨text, hdecode, hself⟩ := hall o.token
  rw [withToken_self (mem_of_mem_filter ho)] at hself
  obtain rfl : found = some (job text) := Except.ok.inj (hfound.symm.trans hself)
  have hmem : job text ∈ graph.jobs := by simp [hgraph]
  have hname : ∀ text, (job text).name = jobName := fun text =>
    congrArg Job.Outline.name (houtline text)
  have hplace := at?_written hjobs hmem
  rw [hname] at hplace
  refine ⟨around, index, text, (hplace _).trans (hid text), (hplace _).trans (haround.at? text),
    hdecode, fun token => ?_⟩
  obtain ⟨last, hlast, hjob⟩ := hall token
  have hretold : (job text).Retold (jobPlace index) last (job last) :=
    ⟨(houtline last).trans (houtline text).symm, by
      rw [if_pos (hname text)]
      exact (haround.put text last).symm⟩
  obtain ⟨⟨graph', _⟩, hjobs', halike, rfl⟩ :=
    lifts_jobs_withToken hs ho hself hjob hretold _ hjobs
  refine ⟨last, compiled_eq_ok.mpr ⟨graph', hjobs', ?_⟩, hlast⟩
  rw [withToken_eq, head_withOutputs (seenAlike_withToken o.kind token), halike.permissions_eq Job.Retold.keepsOutline,
    written_of_retold halike (jobs_not_mem_head w _)]
  rfl

def tokenOutput : Output :=
  { kind := .createIssue, max := none, token := "first", target := {}, settings := [] }

def tokenOutputs : SafeOutputs :=
  { outputs :=
      [tokenOutput,
       { kind := .addComment, max := none, token := "", target := {}, settings := [] },
       { kind := .missingTool, max := none, token := "", target := {}, settings := [] }]
    ordered := show [Kind.createIssue, .addComment, .missingTool].Sublist Kind.all by decide }

def tokenSample : Workflow := { sampleWorkflow with safeOutputs := some tokenOutputs }

/-- Where the token of the sample stands, and what changes with another token and with none. -/
theorem token_stays_with_handler_sample :
    tokenOutput ∈ tokenOutputs.handled ∧
    ∃ v warnings, tokenSample.compiled .copilot {} = .ok (v, warnings) ∧
      ∃ (around : SafeOutputs.Surroundings .createIssue) (index : Nat) (text last bare : String),
        v.at? (handlersPlace index) = some (.str text) ∧
        Json.decode? text = some (around.config "first") ∧
        (tokenSample.withToken .createIssue "last").compiled .copilot {} =
          .ok (v.put (handlersPlace index) (.str last), warnings) ∧
        Json.decode? last = some (around.config "last") ∧
        (tokenSample.withToken .createIssue "").compiled .copilot {} =
          .ok (v.put (handlersPlace index) (.str bare), warnings) ∧
        Json.decode? bare = some (around.config "") := by
  have hbuilders : BuildersSucceed tokenSample .copilot {} :=
    buildersSucceed_of_parts (by decide)
  obtain ⟨graph, warnings, hjobs, -, -⟩ := jobs_outline hbuilders
  have hcompiled := compiled_eq_ok.mpr ⟨graph, hjobs, rfl⟩
  have ho : tokenOutput ∈ tokenOutputs.handled := mem_cons_self
  obtain ⟨around, index, text, -, hplace, htext, hall⟩ :=
    token_stays_with_handler (w := tokenSample) rfl ho hcompiled
  obtain ⟨last, hlast, hlastText⟩ := hall "last"
  obtain ⟨bare, hbare, hbareText⟩ := hall ""
  exact ⟨ho, _, warnings, hcompiled, around, index, text, last, bare, hplace, htext, hlast,
    hlastText, hbare, hbareText⟩

end Workflow

end FlowLock
