import FlowLock.Proofs.Mcp.Wiring
import FlowLock.Proofs.Workflow.Pins

/-!
# Where the app's token is read

One helper chooses the token of all steps that carry out safe outputs: with an app it is the
token that the app's step mints.  Only the processing job has such a step.  The jobs of reports
choose their token by the same helper and have none, so there the reference leads nowhere.
-/

namespace FlowLock

open Outcome SafeOutput List Option

namespace Step

def HasId (step : Value) (id : String) : Prop := step.at? [.key "id"] = some (.str id)

end Step

/-! ## Steps that are not given the app's token -/

open Step (ReadsApp)

/-- Of some steps only those of a list are given the app's token. -/
def ReadIn (own steps : List Value) : Prop := ∀ step ∈ steps, ReadsApp step → step ∈ own

namespace ReadIn

variable {own steps more : List Value}

theorem nil : ReadIn own [] := fun _ h => nomatch h

theorem append (h : ReadIn own steps) (hmore : ReadIn own more) : ReadIn own (steps ++ more) :=
  forall_mem_append.mpr ⟨h, hmore⟩

theorem of_subset (h : steps ⊆ own) : ReadIn own steps := fun _ hstep _ => h hstep

end ReadIn

section Builders

variable {ctx : Context} {own brought : List Value} {w : Workflow} {engine : Engine}

theorem ReadIn.of_built {q : PinResolver} {steps steps' : List Value}
    (h : Forall₂ (Step.Built ctx q (· ∈ own)) steps steps') : ReadIn own steps := by
  induction h with
  | nil => exact .nil
  | cons hstep _ ih =>
    refine forall_mem_cons.mpr ⟨?_, ih⟩
    cases hstep with
    | same h => exact h
    | uses _ _ h => exact h

/-- Steps are told from what is built with the resolver of the context itself. -/
theorem rebuilds_self (ctx : Context) (own : List Value) : Rebuilds ctx ctx.pin own (· ∈ own) :=
  ⟨fun _ old h => ⟨old, h⟩, fun _ h => h⟩

theorem readIn_of_lifts {x y : Outcome (List Value)} {steps : List Value}
    (h : Lifts (Forall₂ (Step.Built ctx ctx.pin (· ∈ own))) x y) (hx : x = .ok steps) :
    ReadIn own steps := by
  obtain ⟨_, -, h⟩ := h steps hx
  exact .of_built h

theorem readIn_of_lifts_option {x y : Outcome (Option Job)} {found : Option Job} {job : Job}
    (h : Lifts (Rel (Job.Built ctx ctx.pin (· ∈ own))) x y) (hx : x = .ok found)
    (hjob : job ∈ found.toList) : ReadIn own job.steps := by
  obtain rfl := mem_toList.mp hjob
  obtain ⟨_, -, h⟩ := h _ hx
  cases h with
  | some h => exact .of_built h.2

theorem Step.gives_appToken (ctx : Context) (app : GitHubApp) (id name : String) :
    Gives (HasId · id) (Step.appToken ctx app id name) :=
  .bind_any _ fun _ => .ok rfl

theorem Step.unnamed_setup (ctx : Context) (id : String) :
    Gives (fun steps => ∀ step ∈ steps, ¬ HasId step id) (setup ctx) := by
  unfold setup
  dsimp only
  split
  · exact .bind_any _ fun _ => .ok (forall_mem_cons.mpr
      ⟨nofun, forall_mem_singleton.mpr nofun⟩)
  · exact .ok (forall_mem_singleton.mpr nofun)
  · exact .ok (forall_mem_singleton.mpr nofun)

theorem Step.unnamed_agentOutput (ctx : Context) (id : String) :
    Gives (fun steps => ∀ step ∈ steps, ¬ HasId step id) (agentOutput ctx) := by
  have hfetch : Gives (¬ HasId · id) (download ctx "Download agent output artifact" "agent-output"
      outputDirectory) := .bind_any _ fun _ => .ok nofun
  exact hfetch.bind fun _ h => .ok (forall_mem_cons.mpr
    ⟨h, forall_mem_singleton.mpr nofun⟩)

end Builders

/-! ## Where the app's token is minted -/

/-- A step of a job that is given the app's token, and no step before it mints it. -/
def Job.Dangles (job : Job) (step : Value) : Prop :=
  ∃ before after, job.steps = before ++ step :: after ∧ ReadsApp step ∧
    ∀ earlier ∈ before, ¬ Step.HasId earlier SafeOutputs.appStepId

theorem Job.Dangles.mem_of_readIn {job : Job} {step : Value} {own : List Value}
    (h : job.Dangles step) (hread : ReadIn own job.steps) : step ∈ own := by
  obtain ⟨before, after, hsteps, hreads, -⟩ := h
  exact hread step (by rw [hsteps]; exact mem_append_right _ mem_cons_self) hreads

namespace SafeOutputs

variable {s : SafeOutputs} {ctx : Context} {name id tracker : String}

theorem processingToken_eq_appToken :
    s.processingToken = appToken ↔ s.token = appToken ∨ s.token.isEmpty ∧ s.app.isSome := by
  unfold processingToken
  cases hempty : s.token.isEmpty with
  | false => simp
  | true =>
    have hne : s.token ≠ appToken := by
      rw [String.isEmpty_iff.mp hempty]
      decide
    cases s.app with
    | some app => simp
    | none =>
      have hother : (if s.usesProjects then projectToken else defaultToken) ≠ appToken := by
        split <;> decide
      simp [hne, hother]

/-- A report that is made with the app's token: it names the token itself, or has no token
while the section names it, or has an app and no token either. -/
def ReportsByApp (s : SafeOutputs) (o : Output) : Prop :=
  o.token = appToken ∨ o.token.isEmpty ∧ (s.token = appToken ∨ s.token.isEmpty ∧ s.app.isSome)

theorem reportToken_eq_appToken {o : Output} :
    (if o.token.isEmpty then s.processingToken else o.token) = appToken ↔ s.ReportsByApp o := by
  rw [ReportsByApp, ← processingToken_eq_appToken]
  cases hempty : o.token.isEmpty with
  | false => simp
  | true =>
    have hne : o.token ≠ appToken := by
      rw [String.isEmpty_iff.mp hempty]
      decide
    simp [hne]

private theorem before_eq_of_append {before after pre : List Value} {step last : Value}
    (h : before ++ step :: after = pre ++ [last]) (hstep : step ∉ pre) :
    before = pre ∧ step = last := by
  obtain ⟨rest, rfl, hrest⟩ | ⟨rest, rfl, hrest⟩ := append_eq_append_iff.mp h
  · cases rest with
    | nil => exact ⟨(append_nil _).symm, (cons.inj hrest).1⟩
    | cons x rest =>
      obtain rfl := (cons.inj hrest).1
      exact absurd (mem_append_right _ mem_cons_self) hstep
  · cases rest with
    | nil => exact ⟨append_nil _, (cons.inj hrest).1.symm⟩
    | cons x rest => simp at hrest

/-- The steps before the processing step read no token, those of the section apart, and mint
the token when there is an app. -/
theorem jobSteps_eq_ok {steps : List Value} (h : s.jobSteps ctx name id tracker = .ok steps) :
    ∃ pre process, steps = pre ++ [process] ∧ ReadIn s.steps pre ∧
      (s.app.isSome → ∃ minting ∈ pre, Step.HasId minting appStepId) ∧
      (ReadsApp process ↔ s.processingToken = appToken) := by
  simp only [jobSteps, bind_eq_ok] at h
  obtain ⟨setup, hsetup, app, happ, output, houtput, patch, hpatch, environment, -, process,
    hprocess, h⟩ := h
  cases h
  have hself := rebuilds_self ctx s.steps
  refine ⟨_, process, rfl, ?_, fun hsome => ?_, ?_⟩
  · exact .append (.append (.append (.append (readIn_of_lifts (Step.lifts_setup hself) hsetup)
      (readIn_of_lifts (lifts_appSteps hself s) happ))
      (readIn_of_lifts (Step.lifts_agentOutput hself) houtput))
      (readIn_of_lifts (lifts_patchSteps hself s) hpatch)) (.of_subset fun _ h => h)
  · obtain ⟨found, hfound⟩ := isSome_iff_exists.mp hsome
    simp only [appSteps, hfound] at happ
    obtain ⟨minting, hminting, happ⟩ := bind_eq_ok.mp happ
    cases happ
    exact ⟨minting, by simp, Step.gives_appToken ctx found _ _ minting hminting⟩
  · rw [ReadsApp, Step.reads_script hprocess]
    exact and_iff_left (by decide)

/-- The processing job mints the token before it is read, unless the section has no app and
names the app's token itself. -/
theorem dangles_job? {job : Job} {step : Value} (h : s.job? ctx name id tracker = .ok (some job))
    (hdangles : job.Dangles step) (hown : step ∉ s.steps) :
    job.name = jobName ∧ s.app = none ∧ s.token = appToken := by
  unfold job? at h
  split at h
  · cases h
  obtain ⟨steps, hsteps, h⟩ := bind_eq_ok.mp h
  cases h
  obtain ⟨pre, process, rfl, hpre, hmint, hprocess⟩ := jobSteps_eq_ok hsteps
  obtain ⟨before, after, heq, hreads, hunminted⟩ := hdangles
  obtain ⟨rfl, rfl⟩ := before_eq_of_append heq.symm fun hmem => hown (hpre step hmem hreads)
  have happ : s.app = none := by
    cases happ : s.app with
    | none => rfl
    | some app =>
      obtain ⟨minting, hmem, hid⟩ := hmint (by rw [happ]; rfl)
      exact absurd hid (hunminted minting hmem)
  refine ⟨rfl, happ, ?_⟩
  rcases processingToken_eq_appToken.mp (hprocess.mp hreads) with htoken | ⟨-, hsome⟩
  · exact htoken
  · rw [happ] at hsome
    cases hsome

/-- The job of a report mints no token, so the step that reports dangles where it is given the
app's token; no other step does. -/
theorem dangles_reportJob {o : Output} {job : Job}
    (h : s.reportJob ctx o name id tracker = .ok job) :
    (∃ step, job.Dangles step) ↔ s.ReportsByApp o := by
  simp only [reportJob, bind_eq_ok] at h
  obtain ⟨setup, hsetup, output, houtput, report, hreport, h⟩ := h
  cases h
  have hself := rebuilds_self ctx []
  have hpre : ReadIn [] (setup ++ output) :=
    .append (readIn_of_lifts (Step.lifts_setup hself) hsetup)
      (readIn_of_lifts (Step.lifts_agentOutput hself) houtput)
  have hreads : ReadsApp report ↔ s.ReportsByApp o := by
    rw [ReadsApp, Step.reads_script hreport, ← reportToken_eq_appToken]
    exact and_iff_left (by decide)
  rw [← hreads]
  constructor
  · rintro ⟨step, before, after, heq, hstep, -⟩
    obtain ⟨-, rfl⟩ := before_eq_of_append heq.symm fun hmem => nomatch hpre step hmem hstep
    exact hstep
  · intro hstep
    exact ⟨report, setup ++ output, [], rfl, hstep, forall_mem_append.mpr
      ⟨Step.unnamed_setup ctx _ _ hsetup, Step.unnamed_agentOutput ctx _ _ houtput⟩⟩

end SafeOutputs

namespace Workflow

open SafeOutputs (appToken)

theorem exists_reportJob {w : Workflow} {engine : Engine} {ctx : Context} {graph : JobGraph}
    {warnings : List Warning} (h : w.jobs engine ctx = .ok (graph, warnings)) {s : SafeOutputs}
    (hs : w.safeOutputs = some s) {o : Output} (ho : o ∈ s.reports) :
    ∃ job ∈ graph.jobs, job.name = SafeOutputs.reportName o.kind ∧
      ((∃ step, job.Dangles step) ↔ s.ReportsByApp o) := by
  obtain ⟨activation, agent, outputs, push, needs, conclusion, -, -, houtputs, -, -, hjobs⟩ :=
    jobs_eq_ok h
  obtain ⟨found, reports, -, hreports, rfl⟩ := outputJobs_eq_ok hs houtputs
  obtain ⟨job, hjob, hreport⟩ := exists_mem_of_mapM hreports ho
  exact ⟨job, by simp [hjobs, hjob], congrArg Job.Outline.name
    (SafeOutputs.outline_reportJob hreport), SafeOutputs.dangles_reportJob hreport⟩

/-- **Where the app's token is read and not minted.**  Whatever a workflow, its engine and the
context: a step that is given the app's token after no step that mints it is one that the
workflow brings itself; or it is the processing step, and the section has no app but names the
app's token; or it is the step of a report that is made with the app's token.  And the job of
a report has such a step exactly when the report is made with the app's token. -/
theorem app_token_dangles {w : Workflow} {engine : Engine} {ctx : Context} {graph : JobGraph}
    {warnings : List Warning} (h : w.jobs engine ctx = .ok (graph, warnings)) :
    (∀ job ∈ graph.jobs, ∀ step, job.Dangles step → step ∉ w.ownSteps →
      ∃ s, w.safeOutputs = some s ∧
        (job.name = SafeOutputs.jobName ∧ s.app = none ∧ s.token = appToken ∨
          ∃ o ∈ s.reports, job.name = SafeOutputs.reportName o.kind ∧ s.ReportsByApp o)) ∧
    ∀ s, w.safeOutputs = some s → ∀ o ∈ s.reports,
      ∃ job ∈ graph.jobs, job.name = SafeOutputs.reportName o.kind ∧
        ((∃ step, job.Dangles step) ↔ s.ReportsByApp o) := by
  obtain ⟨activation, agent, outputs, push, needs, conclusion, hactivation, hagent, houtputs, hpush,
    hconclusion, hjobs⟩ := jobs_eq_ok h
  refine ⟨fun job hjob step hdangles hown => ?_, fun s hs o ho => exists_reportJob h hs ho⟩
  · have hout : ¬ ReadIn w.ownSteps job.steps := fun hread => hown (hdangles.mem_of_readIn hread)
    have hself := rebuilds_self ctx w.ownSteps
    simp only [hjobs, mem_append, mem_cons, not_mem_nil, or_false] at hjob
    rcases hjob with (((rfl | rfl) | hjob) | hjob) | hjob
    · obtain ⟨_, -, h⟩ := lifts_activationJob hself engine job hactivation
      exact absurd (.of_built h.2) hout
    · obtain ⟨_, -, h, -⟩ := lifts_agentJob hself engine (job, warnings) hagent
      exact absurd (.of_built h.2) hout
    · cases hs : w.safeOutputs with
      | none =>
        simp only [outputJobs, hs] at houtputs
        cases houtputs
        cases hjob
      | some s =>
        refine ⟨s, rfl, ?_⟩
        obtain ⟨found, reports, hfound, hreports, rfl⟩ := outputJobs_eq_ok hs houtputs
        rcases mem_append.mp hjob with hjob | hjob
        · obtain rfl := mem_toList.mp hjob
          exact .inl (SafeOutputs.dangles_job? hfound hdangles fun hmem =>
            hown (mem_append_right _ (by simp [hs, hmem])))
        · obtain ⟨o, ho, hreport⟩ := Gives.mapM
            (Q := fun job => ∃ o ∈ s.reports, s.reportJob ctx o w.name w.id w.tracker = .ok job)
            (fun o ho job hjob => ⟨o, ho, hjob⟩) reports hreports job hjob
          exact .inr ⟨o, ho, congrArg Job.Outline.name (SafeOutputs.outline_reportJob hreport),
            (SafeOutputs.dangles_reportJob hreport).mp ⟨step, hdangles⟩⟩
    · exact absurd (readIn_of_lifts_option (Memory.lifts_pushJob? hself) hpush hjob) hout
    · exact absurd (readIn_of_lifts_option (lifts_conclusionJob? hself needs) hconclusion hjob) hout

def appOutputs (reporting : String) : SafeOutputs :=
  { outputs :=
      [{ kind := .createIssue, max := none, token := "", target := {}, settings := [] },
       { kind := .missingTool, max := none, token := reporting, target := {}, settings := [] }]
    ordered := show [Kind.createIssue, Kind.missingTool].Sublist Kind.all by decide
    app := some { appId := "1", privateKey := "key" } }

def appSample (reporting : String) : Workflow :=
  { sampleWorkflow with safeOutputs := some (appOutputs reporting) }

/-- Where the report has a token of its own, the app's token is minted before it is read. -/
theorem app_token_dangles_own :
    ∃ graph warnings, (appSample "own").jobs .copilot {} = .ok (graph, warnings) ∧
      SafeOutputs.jobName ∈ graph.names ∧
      ∀ job ∈ graph.jobs, ∀ step, ¬ job.Dangles step := by
  have hbuilders : BuildersSucceed (appSample "own") .copilot {} :=
    buildersSucceed_of_parts (by decide)
  obtain ⟨graph, warnings, hjobs, houtlines, -⟩ := jobs_outline hbuilders
  refine ⟨graph, warnings, hjobs, ?_, fun job hjob step hdangles => ?_⟩
  · rw [JobGraph.names, ← Job.map_name_outline, houtlines]
    decide
  · obtain ⟨_, ⟨⟩, ⟨-, ⟨⟩, -⟩ | ⟨o, ho, -, htoken⟩⟩ :=
      (app_token_dangles hjobs).1 job hjob step hdangles not_mem_nil
    obtain rfl := mem_singleton.mp ho
    rcases htoken with htoken | ⟨⟨⟩, -⟩
    exact absurd htoken (by decide)

/-- A report without a token dangles, while the app's token is minted in another job. -/
theorem app_token_not_minted :
    ∃ graph warnings, (appSample "").jobs .copilot {} = .ok (graph, warnings) ∧
      ∃ job ∈ graph.jobs, job.name = "missing_tool" ∧ ∃ step, job.Dangles step := by
  have hbuilders : BuildersSucceed (appSample "") .copilot {} :=
    buildersSucceed_of_parts (by decide)
  obtain ⟨graph, warnings, hjobs, -, -⟩ := jobs_outline hbuilders
  obtain ⟨job, hjob, hname, hdangles⟩ :=
    exists_reportJob hjobs rfl (mem_singleton_self _ : _ ∈ (appOutputs "").reports)
  exact ⟨graph, warnings, hjobs, job, hjob, hname, hdangles.mpr (.inr ⟨rfl, .inr ⟨rfl, rfl⟩⟩)⟩

end Workflow

end FlowLock
