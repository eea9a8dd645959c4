import FlowLock.Proofs.Job.Graph
import FlowLock.Proofs.Workflow.Builders

/-!
# The jobs of a workflow in order

The outlines of a workflow's jobs are told by its sections alone.  When every builder
succeeds, the jobs can all be added and pass the check of dependencies, and their outlines
are these; so the order, the presence and the dependencies of jobs are read off a list.
-/

namespace FlowLock.Workflow

open Outcome SafeOutput List SafeOutputs

variable {w : Workflow} {engine : Engine} {ctx : Context} {outline : Job.Outline} {α : Type}

/-! ## Outlines -/

def outputOutlines : Option SafeOutputs → List Job.Outline
  | none => []
  | some s =>
    (if s.handled.isEmpty then [] else [processingOutline s]) ++ s.reports.map reportOutline

def laterOutlines (w : Workflow) : List Job.Outline :=
  outputOutlines w.safeOutputs ++ w.tools.repoMemory.toList.map fun _ => pushOutline

def workingOutlines (w : Workflow) : List Job.Outline :=
  [w.activationOutline, w.agentOutline] ++ w.laterOutlines

def outlines (w : Workflow) : List Job.Outline :=
  w.workingOutlines ++ w.configuredOutputs?.toList.map fun _ =>
    w.conclusionOutline (w.workingOutlines.map (·.name))

/-- What a job after the agent's can be. -/
inductive IsLater (w : Workflow) : Job.Outline → Prop
  | processing {s : SafeOutputs} (hs : w.safeOutputs = some s) : IsLater w (processingOutline s)
  | report {s : SafeOutputs} {o : Output} (hs : w.safeOutputs = some s) (ho : o ∈ s.reports) :
      IsLater w (reportOutline o)
  | push : IsLater w pushOutline

theorem isLater_of_mem (h : outline ∈ w.laterOutlines) : IsLater w outline := by
  rcases mem_append.mp h with h | h
  · cases hs : w.safeOutputs with
    | none => simp [hs, outputOutlines] at h
    | some s =>
      rw [hs, outputOutlines] at h
      rcases mem_append.mp h with h | h
      · split at h
        · simp at h
        · obtain rfl := mem_singleton.mp h
          exact .processing hs
      · obtain ⟨o, ho, rfl⟩ := mem_map.mp h
        exact .report hs ho
  · obtain ⟨-, -, rfl⟩ := mem_map.mp h
    exact .push

theorem cases_of_mem_outlines (h : outline ∈ w.outlines) :
    outline = w.activationOutline ∨ outline = w.agentOutline ∨ IsLater w outline ∨
      outline = w.conclusionOutline (w.workingOutlines.map (·.name)) := by
  rcases mem_append.mp h with h | h
  · rcases mem_append.mp h with h | h
    · simp only [mem_cons, not_mem_nil, or_false] at h
      rcases h with rfl | rfl
      · exact .inl rfl
      · exact .inr (.inl rfl)
    · exact .inr (.inr (.inl (isLater_of_mem h)))
  · obtain ⟨-, -, rfl⟩ := mem_map.mp h
    exact .inr (.inr (.inr rfl))

/-! ## Names -/

def configures (w : Workflow) (test : Kind → Bool) : Bool :=
  w.safeOutputs.any fun s => s.outputs.any fun o => test o.kind

/-- The names of the jobs before the concluding one, in order. -/
def workingNames (w : Workflow) : List String :=
  ["activation", "agent"] ++
  (if w.configures (!·.isReport) then ["safe_outputs"] else []) ++
  (if w.configures (· == .missingTool) then ["missing_tool"] else []) ++
  (if w.configures (· == .missingData) then ["missing_data"] else []) ++
  (if w.tools.repoMemory.isSome then ["push_repo_memory"] else [])

def jobNames (w : Workflow) : List String :=
  w.workingNames ++ if w.configures fun _ => true then ["conclusion"] else []

theorem workingNames_sublist (w : Workflow) :
    w.workingNames.Sublist ["activation", "agent", "safe_outputs", "missing_tool",
      "missing_data", "push_repo_memory"] := by
  have hpart : ∀ (b : Bool) (name : String), (if b then [name] else []).Sublist [name] := by
    intro b name
    cases b
    · exact nil_sublist _
    · exact Sublist.refl _
  exact ((((Sublist.refl ["activation", "agent"]).append (hpart _ _)).append
    (hpart _ _)).append (hpart _ _)).append (hpart _ _)

theorem conclusion_not_mem_workingNames (w : Workflow) : "conclusion" ∉ w.workingNames :=
  fun h => absurd (w.workingNames_sublist.subset h) (by decide)

theorem nodup_jobNames (w : Workflow) : w.jobNames.Nodup := by
  have hworking : w.workingNames.Nodup := w.workingNames_sublist.nodup (by decide)
  unfold jobNames
  split
  · exact nodup_append'.mpr ⟨hworking, by simp, by
      simpa using w.conclusion_not_mem_workingNames⟩
  · simpa using hworking

private theorem eq_filter_of_sublist [DecidableEq α] {part whole : List α} (h : part.Sublist whole)
    (hnodup : whole.Nodup) : part = whole.filter (· ∈ part) := by
  induction h with
  | slnil => rfl
  | @cons part whole x h ih =>
    obtain ⟨hx, hnodup⟩ := nodup_cons.mp hnodup
    have hout : x ∉ part := fun hmem => hx (h.subset hmem)
    rw [filter_cons_of_neg (by simpa using hout)]
    exact ih hnodup
  | @cons_cons part whole x h ih =>
    obtain ⟨hx, hnodup⟩ := nodup_cons.mp hnodup
    rw [filter_cons_of_pos (by simp)]
    congr 1
    calc part = whole.filter (· ∈ part) := ih hnodup
      _ = whole.filter (· ∈ x :: part) := by
        refine filter_congr fun y hy => ?_
        have hne : y ≠ x := fun heq => hx (heq ▸ hy)
        simp [hne]

theorem kinds_reports (s : SafeOutputs) : s.reports.map (·.kind) =
      (if s.outputs.any (·.kind == .missingTool) then [Kind.missingTool] else []) ++
      (if s.outputs.any (·.kind == .missingData) then [Kind.missingData] else []) := by
  have hreports : s.reports.map (·.kind) = (s.outputs.map (·.kind)).filter Kind.isReport := by
    simp [reports, filter_map, Function.comp_def]
  have hall : Kind.all.filter Kind.isReport = [.missingTool, .missingData] := by decide
  have hpart := s.ordered.filter Kind.isReport
  rw [hall] at hpart
  have hmem : ∀ kind : Kind, kind.isReport → (kind ∈ (s.outputs.map (·.kind)).filter Kind.isReport ↔
        s.outputs.any (·.kind == kind)) := by
    intro kind hkind
    simp [hkind]
  rw [hreports, eq_filter_of_sublist hpart (by decide)]
  simp only [filter_cons, filter_nil, decide_eq_true_eq, hmem .missingTool rfl,
    hmem .missingData rfl]
  split <;> split <;> rfl

theorem handlerKey_missingTool : Kind.missingTool.handlerKey = "missing_tool" := by
  decide

theorem handlerKey_missingData : Kind.missingData.handlerKey = "missing_data" := by
  decide

theorem names_outputOutlines (s : SafeOutputs) : (outputOutlines (some s)).map (·.name) =
      (if s.outputs.any (!·.kind.isReport) then ["safe_outputs"] else []) ++
      (if s.outputs.any (·.kind == .missingTool) then ["missing_tool"] else []) ++
      (if s.outputs.any (·.kind == .missingData) then ["missing_data"] else []) := by
  have hhandled : s.handled.isEmpty = !s.outputs.any (!·.kind.isReport) := by
    rw [Bool.eq_iff_iff]
    simp [handled]
  have hreports : (s.reports.map reportOutline).map (·.name) =
      (s.reports.map (·.kind)).map Kind.handlerKey := by
    simp [reportOutline]
  rw [outputOutlines, map_append, hreports, kinds_reports, hhandled, append_assoc]
  congr 1
  · cases s.outputs.any (!·.kind.isReport) <;> rfl
  · cases s.outputs.any (·.kind == .missingTool) <;>
      cases s.outputs.any (·.kind == .missingData) <;>
        simp [handlerKey_missingTool, handlerKey_missingData]

theorem isSome_configuredOutputs? (w : Workflow) :
    w.configuredOutputs?.isSome = w.configures fun _ => true := by
  unfold configuredOutputs? configures
  cases w.safeOutputs with
  | none => rfl
  | some s =>
    cases houtputs : s.outputs <;> simp [Option.filter, houtputs]

private theorem map_name_toList (o : Option α) (x : Job.Outline) :
    (o.toList.map fun _ => x).map (·.name) = if o.isSome then [x.name] else [] := by
  cases o <;> rfl

theorem names_workingOutlines (w : Workflow) : w.workingOutlines.map (·.name) = w.workingNames := by
  have houtputs : (outputOutlines w.safeOutputs).map (·.name) =
      (if w.configures (!·.isReport) then ["safe_outputs"] else []) ++
      (if w.configures (· == .missingTool) then ["missing_tool"] else []) ++
      (if w.configures (· == .missingData) then ["missing_data"] else []) := by
    unfold configures
    cases w.safeOutputs with
    | none => rfl
    | some s => exact names_outputOutlines s
  simp only [workingOutlines, laterOutlines, workingNames, map_append, map_name_toList,
    houtputs, append_assoc]
  rfl

theorem name_of_mem_reports {s : SafeOutputs} {o : Output} (h : o ∈ s.reports) :
    (reportOutline o).name = "missing_tool" ∨ (reportOutline o).name = "missing_data" := by
  have hreport : o.kind.isReport := by simpa using (mem_filter.mp h).2
  have hkind : o.kind = .missingTool ∨ o.kind = .missingData := by
    revert hreport
    cases o.kind <;> simp [Kind.isReport]
  rcases hkind with hkind | hkind
  · exact .inl (by rw [reportOutline, hkind, handlerKey_missingTool])
  · exact .inr (by rw [reportOutline, hkind, handlerKey_missingData])

theorem names_outlines (w : Workflow) : w.outlines.map (·.name) = w.jobNames := by
  simp only [outlines, jobNames, map_append, names_workingOutlines, map_name_toList,
    isSome_configuredOutputs?, conclusionOutline]

/-! ## Building all jobs -/

structure BuildersSucceed (w : Workflow) (engine : Engine) (ctx : Context) : Prop where
  activation : ∃ job, w.activationJob engine ctx = .ok job
  agent : ∃ built, w.agentJob engine ctx = .ok built
  processing : ∀ s, w.safeOutputs = some s → ∃ found, s.job? ctx w.name w.id w.tracker = .ok found
  report : ∀ s, w.safeOutputs = some s → ∀ o ∈ s.reports,
    ∃ job, s.reportJob ctx o w.name w.id w.tracker = .ok job
  push : ∃ found, Memory.pushJob? w ctx = .ok found
  conclusion : ∃ needs found, w.conclusionJob? ctx needs = .ok found

private theorem map_toList {β : Type} (f : α → β) (o : Option α) :
    o.toList.map f = (o.map f).toList := by
  cases o <;> rfl

theorem outline_outputJobs {jobs : List Job} (h : w.outputJobs ctx = .ok jobs) :
    jobs.map (·.outline) = outputOutlines w.safeOutputs := by
  unfold outputJobs at h
  split at h
  · next hnone =>
    cases h
    rw [hnone]
    rfl
  · next s hsome =>
    obtain ⟨found, hfound, h⟩ := bind_eq_ok.mp h
    obtain ⟨reports, hreports, h⟩ := bind_eq_ok.mp h
    cases h
    rw [hsome, outputOutlines, map_append, map_toList, job?_eq_ok hfound]
    congr 1
    · split <;> rfl
    · exact map_of_mapM outline_reportJob hreports

theorem BuildersSucceed.exists_outputJobs (h : BuildersSucceed w engine ctx) :
    ∃ jobs, w.outputJobs ctx = .ok jobs := by
  unfold outputJobs
  cases hs : w.safeOutputs with
  | none => exact ⟨[], rfl⟩
  | some s =>
    obtain ⟨found, hfound⟩ := h.processing s hs
    obtain ⟨reports, hreports⟩ := exists_mapM_ok.mpr (h.report s hs)
    exact ⟨found.toList ++ reports, by simp [hfound, hreports]⟩

theorem IsLater.needs_subset (h : IsLater w outline) : outline.needs ⊆ ["activation", "agent"] := by
  cases h with
  | processing _ => simp [processingOutline]
  | report _ _ => simp [reportOutline]
  | push => simp [pushOutline]

theorem isTopological_of_outline {working : List Job} {conclusion : Option Job}
    (hworking : working.map (·.outline) = w.workingOutlines)
    (hconclusion : ∀ job ∈ conclusion, job.needs = working.map (·.name)) :
    (⟨working ++ conclusion.toList⟩ : JobGraph).IsTopological := by
  obtain ⟨activation, rest, rfl, hactivation, hrest⟩ := map_eq_cons_iff.mp hworking
  obtain ⟨agent, later, rfl, hagent, hlater⟩ := map_eq_cons_iff.mp hrest
  have hlater : later.map (·.outline) = w.laterOutlines := hlater
  have hactivationName : activation.name = "activation" := congrArg (·.name) hactivation
  have hagentName : agent.name = "agent" := congrArg (·.name) hagent
  have hactivationNeeds : activation.needs = [] := congrArg (·.needs) hactivation
  have hagentNeeds : agent.needs = ["activation"] := congrArg (·.needs) hagent
  have hfirst : (⟨[activation]⟩ : JobGraph).IsTopological :=
    JobGraph.isTopological_nil.append (by simp [hactivationNeeds])
  have hsecond : (⟨[activation, agent]⟩ : JobGraph).IsTopological :=
    hfirst.append (by simp [hagentNeeds, hactivationName])
  have hthird : (⟨[activation, agent] ++ later⟩ : JobGraph).IsTopological := by
    refine hsecond.append_all fun job hjob => ?_
    have hmem : job.outline ∈ w.laterOutlines := hlater ▸ mem_map_of_mem hjob
    simpa [hactivationName, hagentName] using (isLater_of_mem hmem).needs_subset
  refine hthird.append_all fun job hjob => ?_
  rw [hconclusion job (by simpa using hjob)]
  simp

/-- **The jobs of a workflow have its outlines** when each of them can be built: none is
refused for its name, and the check of dependencies passes. -/
theorem jobs_outline (h : BuildersSucceed w engine ctx) :
    ∃ graph warnings, w.jobs engine ctx = .ok (graph, warnings) ∧
      graph.jobs.map (·.outline) = w.outlines ∧ graph.IsTopological := by
  obtain ⟨activation, hactivation⟩ := h.activation
  obtain ⟨⟨agent, warnings⟩, hagent⟩ := h.agent
  obtain ⟨outputs, houtputs⟩ := h.exists_outputJobs
  obtain ⟨push, hpush⟩ := h.push
  obtain ⟨needs, found, hfound⟩ := h.conclusion
  set working := [activation, agent] ++ outputs ++ push.toList with hworking
  obtain ⟨conclusion, hconclusion⟩ := exists_conclusionJob? hfound (⟨working⟩ : JobGraph).names
  have hworkingOutline : working.map (·.outline) = w.workingOutlines := by
    simp only [hworking, map_append, map_cons, map_nil, map_toList,
      outline_activationJob hactivation, outline_agentJob hagent, outline_outputJobs houtputs,
      Memory.pushJob?_eq_ok hpush, workingOutlines, laterOutlines, append_assoc]
  have hworkingNames : working.map (·.name) = w.workingOutlines.map (·.name) := by
    rw [← hworkingOutline, Job.map_name_outline]
  have hconclusionOutline : conclusion.toList.map (·.outline) =
      w.configuredOutputs?.toList.map fun _ =>
        w.conclusionOutline (w.workingOutlines.map (·.name)) := by
    rw [map_toList, conclusionJob?_eq_ok hconclusion, map_toList, ← hworkingNames]
    rfl
  have houtlines : (working ++ conclusion.toList).map (·.outline) = w.outlines := by
    rw [map_append, hworkingOutline, hconclusionOutline, outlines]
  -- The names are those of the outlines, so they are distinct.
  have hnodup : ((working ++ conclusion.toList).map (·.name)).Nodup := by
    have hnames : (working ++ conclusion.toList).map (·.name) = w.jobNames := by
      rw [← names_outlines, ← houtlines, Job.map_name_outline]
    exact hnames ▸ nodup_jobNames w
  have hadd : working.foldlM JobGraph.add {} = .ok ⟨working⟩ := by
    rw [map_append] at hnodup
    exact JobGraph.foldlM_add {} working (Nodup.of_append_left hnodup)
  have haddConclusion : conclusion.toList.foldlM JobGraph.add ⟨working⟩ =
      .ok ⟨working ++ conclusion.toList⟩ :=
    JobGraph.foldlM_add ⟨working⟩ conclusion.toList (by simpa [JobGraph.names] using hnodup)
  have horder : (⟨working ++ conclusion.toList⟩ : JobGraph).IsTopological := by
    refine isTopological_of_outline hworkingOutline ?_
    intro job hjob
    have hmem : job.outline ∈ conclusion.toList.map (·.outline) :=
      mem_map_of_mem (by simpa using hjob)
    rw [hconclusionOutline] at hmem
    obtain ⟨-, -, heq⟩ := mem_map.mp hmem
    rw [← Job.needs_outline, ← heq, hworkingNames]
    rfl
  refine ⟨⟨working ++ conclusion.toList⟩, warnings, ?_, houtlines, horder⟩
  unfold jobs
  simp only [hactivation, hagent, houtputs, hpush, ok_bind, ← hworking, hadd, hconclusion,
    haddConclusion, (JobGraph.validate_eq_ok_iff _).mpr horder]

theorem outputJobs_eq_ok {s : SafeOutputs} (hs : w.safeOutputs = some s) {outputs : List Job}
    (h : w.outputJobs ctx = .ok outputs) :
    ∃ found reports, s.job? ctx w.name w.id w.tracker = .ok found ∧
      s.reports.mapM (fun o => s.reportJob ctx o w.name w.id w.tracker) = .ok reports ∧
      outputs = found.toList ++ reports := by
  simp only [outputJobs, hs] at h
  obtain ⟨found, hfound, h⟩ := bind_eq_ok.mp h
  obtain ⟨reports, hreports, h⟩ := bind_eq_ok.mp h
  exact ⟨found, reports, hfound, hreports, (Except.ok.inj h).symm⟩

/-- Jobs that are put together were built, and nothing else is put together. -/
theorem jobs_eq_ok {graph : JobGraph} {warnings : List Warning}
    (h : w.jobs engine ctx = .ok (graph, warnings)) :
    ∃ activation agent outputs push needs conclusion, w.activationJob engine ctx = .ok activation ∧
      w.agentJob engine ctx = .ok (agent, warnings) ∧ w.outputJobs ctx = .ok outputs ∧
      Memory.pushJob? w ctx = .ok push ∧ w.conclusionJob? ctx needs = .ok conclusion ∧
      graph.jobs = [activation, agent] ++ outputs ++ push.toList ++ conclusion.toList := by
  simp only [jobs, bind_eq_ok] at h
  obtain ⟨activation, hactivation, ⟨agent, found⟩, hagent, outputs, houtputs, push, hpush, before,
    hbefore, conclusion, hconclusion, all, hall, -, -, h⟩ := h
  cases h
  refine ⟨activation, agent, outputs, push, _, conclusion, hactivation, hagent, houtputs, hpush,
    hconclusion, ?_⟩
  rw [JobGraph.jobs_of_foldlM_add hall, JobGraph.jobs_of_foldlM_add hbefore]
  rfl

theorem buildersSucceed_of_jobs {built : JobGraph × List Warning}
    (h : w.jobs engine ctx = .ok built) : BuildersSucceed w engine ctx := by
  obtain ⟨activation, agent, outputs, push, needs, conclusion, hactivation, hagent, houtputs, hpush,
    hconclusion, -⟩ := jobs_eq_ok h
  exact
    { activation := ⟨activation, hactivation⟩
      agent := ⟨(agent, _), hagent⟩
      processing := by
        intro s hs
        obtain ⟨found, -, hfound, -, -⟩ := outputJobs_eq_ok hs houtputs
        exact ⟨found, hfound⟩
      report := by
        intro s hs o ho
        obtain ⟨-, reports, -, hreports, -⟩ := outputJobs_eq_ok hs houtputs
        exact exists_mapM_ok.mp ⟨reports, hreports⟩ o ho
      push := ⟨push, hpush⟩
      conclusion := ⟨needs, conclusion, hconclusion⟩ }

/-! ## What the outlines say -/

theorem needs_of_conclusion (w : Workflow) :
    ∀ o ∈ w.outlines, o.name = "conclusion" → o.needs = w.workingNames := by
  intro o ho hname
  rcases mem_append.mp ho with ho | ho
  · refine absurd ?_ w.conclusion_not_mem_workingNames
    rw [← names_workingOutlines, ← hname]
    exact mem_map_of_mem ho
  · obtain ⟨-, -, rfl⟩ := mem_map.mp ho
    exact names_workingOutlines w

/-- A condition that a workflow does not declare itself refers to jobs that are waited for. -/
theorem references_of_outlines (w : Workflow) :
    ∀ o ∈ w.outlines, o.name ≠ "activation" →
      ∀ name ∈ Job.referencesIn o.condition.toList, name ∈ o.needs := by
  have hpush : ∀ name ∈ Job.referencesIn "always() && needs.agent.result == 'success'".toList,
      name = "agent" := by decide
  have hconclusion : ∀ name ∈
      Job.referencesIn "(always()) && (needs.agent.result != 'skipped')".toList,
      name = "agent" := by decide
  have hagent : "agent" ∈ w.workingNames := by simp [workingNames]
  intro o ho hactivation name hname
  rcases cases_of_mem_outlines ho with rfl | rfl | hlater | rfl
  · exact absurd rfl hactivation
  · simp [agentOutline, Job.referencesIn] at hname
  · cases hlater with
    | @processing s hs =>
      obtain rfl := referencesIn_jobCondition s name hname
      simp [processingOutline]
    | report hs ho =>
      simp only [reportOutline, referencesIn_reportCondition] at hname
      simpa [reportOutline] using hname
    | push =>
      obtain rfl := hpush name hname
      simp [pushOutline]
  · obtain rfl := hconclusion name hname
    simpa [conclusionOutline, names_workingOutlines] using hagent

/-- **The jobs of a workflow are distinct, complete and in order.**

When each job can be built by itself, all of them can be put together.  Their names are
distinct, and each job waits only for jobs before it; they are the jobs that the sections of
the workflow ask for, in a fixed order; the concluding job waits for all others, in their
order; and where a condition that the workflow does not declare itself reads a job, that job
is waited for. -/
theorem jobs_in_order (w : Workflow) (engine : Engine) (ctx : Context)
    (h : BuildersSucceed w engine ctx) :
    ∃ graph warnings, w.jobs engine ctx = .ok (graph, warnings) ∧
      graph.names.Nodup ∧ graph.IsTopological ∧ graph.names = w.jobNames ∧
      (∀ job ∈ graph.jobs, job.name = "conclusion" →
        job.needs = graph.names.filter (· ≠ "conclusion")) ∧
      ∀ job ∈ graph.jobs, job.name ≠ "activation" →
        ∀ name ∈ job.references, name ∈ job.needs := by
  obtain ⟨graph, warnings, hjobs, houtlines, horder⟩ := jobs_outline h
  have hnames : graph.names = w.jobNames := by
    rw [← names_outlines, ← houtlines, Job.map_name_outline]
    rfl
  have hmem : ∀ job ∈ graph.jobs, job.outline ∈ w.outlines := fun job hjob =>
    houtlines ▸ mem_map_of_mem hjob
  refine ⟨graph, warnings, hjobs, hnames ▸ nodup_jobNames w, horder, hnames, ?_, ?_⟩
  · intro job hjob hname
    have hothers : w.jobNames.filter (· ≠ "conclusion") = w.workingNames := by
      have hkeep : w.workingNames.filter (· ≠ "conclusion") = w.workingNames :=
        filter_eq_self.mpr fun name hmem => by
          simpa using fun heq : name = "conclusion" =>
            w.conclusion_not_mem_workingNames (heq ▸ hmem)
      rw [jobNames, filter_append, hkeep]
      split <;> simp
    rw [hnames, hothers]
    exact needs_of_conclusion w _ (hmem job hjob) hname
  · intro job hjob hname
    exact references_of_outlines w _ (hmem job hjob) hname

/-- Whether the parts of which the jobs are made can be built, the prompt apart; what closed
examples evaluate. -/
def partsSucceed (w : Workflow) (engine : Engine) (ctx : Context) : Bool :=
  (w.activationJob engine ctx).isOk && (w.prepareSteps ctx).isOk &&
  (engine.installSteps w ctx).isOk && w.limitSteps.isOk && (engine.serverSteps w ctx).isOk &&
  (engine.runSteps w ctx).isOk && (w.collectSteps engine ctx).isOk &&
  (Step.upload ctx "Upload agent logs" "agent-stdio.log" [Engine.outputLog] "warn"
    "always()").isOk &&
  (Memory.cacheUploads w ctx).isOk && (Memory.branchUploads w ctx).isOk &&
  w.safeOutputs.all (fun s => (s.job? ctx w.name w.id w.tracker).isOk &&
    s.reports.all fun o => (s.reportJob ctx o w.name w.id w.tracker).isOk) &&
  (Memory.pushJob? w ctx).isOk && (w.conclusionJob? ctx []).isOk

theorem buildersSucceed_of_parts (h : w.partsSucceed engine {}) : BuildersSucceed w engine {} := by
  have hscript : ∀ script, ∃ step, Step.script {} script = .ok step := by
    intro script
    obtain ⟨uses, huses⟩ : ∃ uses, ({} : Context).pin "actions/github-script" = .ok uses := by
      decide
    exact ⟨_, bind_eq_ok.mpr ⟨uses, huses, rfl⟩⟩
  simp only [partsSucceed, Bool.and_eq_true, and_assoc, isOk_iff, Option.all_eq_true, all_eq_true]
    at h
  obtain ⟨hactivation, hprepare, hinstall, hlimits, hservers, hrun, hcollect, hlogs, hcaches,
    hbranch, houtputs, hpush, hconclusion⟩ := h
  have hagent : ∃ built, w.agentJob engine {} = .ok built :=
    exists_bind hprepare fun _ => exists_bind hinstall fun _ => exists_bind hlimits fun _ =>
    exists_bind hservers fun _ => exists_bind (Prompt.exists_steps w hscript) fun _ =>
    exists_bind hrun fun _ => exists_bind hcollect fun _ => exists_bind hlogs fun _ =>
    exists_bind hcaches fun _ => exists_bind hbranch fun _ => ⟨_, rfl⟩
  exact
    { activation := hactivation
      agent := hagent
      processing := fun s hs => (houtputs s hs).1
      report := fun s hs => (houtputs s hs).2
      push := hpush
      conclusion := ⟨[], hconclusion⟩ }

def sampleOutputs : SafeOutputs :=
  { outputs := [.createIssue, .missingTool, .missingData].map fun kind =>
      { kind, max := none, token := "", target := {}, settings := [] }
    ordered := by decide }

def sampleWorkflow : Workflow :=
  { name := "sample", source := Path.ofText "sample.md", body := "", on := [], engine := {}
    tools := { repoMemory := some {} }, network := {}, permissions := .empty
    checkouts := [], safeOutputs := some sampleOutputs, imports := {} }

theorem sampleWorkflow_builders : BuildersSucceed sampleWorkflow .copilot {} :=
  buildersSucceed_of_parts (by decide)

theorem jobs_in_order_sample :
    BuildersSucceed sampleWorkflow .copilot {} ∧
    ∃ graph warnings, sampleWorkflow.jobs .copilot {} = .ok (graph, warnings) ∧
      graph.IsTopological ∧
      graph.names = ["activation", "agent", "safe_outputs", "missing_tool", "missing_data",
        "push_repo_memory", "conclusion"] := by
  obtain ⟨graph, warnings, hjobs, -, horder, hnames, -⟩ :=
    jobs_in_order sampleWorkflow .copilot {} sampleWorkflow_builders
  refine ⟨sampleWorkflow_builders, graph, warnings, hjobs, horder, ?_⟩
  rw [hnames]
  decide

end FlowLock.Workflow
