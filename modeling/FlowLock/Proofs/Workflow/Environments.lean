import FlowLock.Proofs.Mcp.Wiring
import FlowLock.Proofs.Workflow.Compare
import FlowLock.Proofs.Workflow.Reorder

/-!
# Environments are written in order

The jobs of a workflow see its environments in four places: in the workflow itself, in the
step that runs the engine, in the steps of a custom engine and in the processing job.  In
each of them the environment is sorted as it is written, so its own order is not seen.
-/

namespace FlowLock

open Outcome Table Secret Option Value

namespace Workflow

theorem cases_safeOutputs {motive : Workflow → Prop}
    (absent : ∀ w : Workflow, motive { w with safeOutputs := none })
    (present : ∀ (w : Workflow) (s : SafeOutputs), motive { w with safeOutputs := some s })
    (w : Workflow) : motive w := by
  cases h : w.safeOutputs with
  | none =>
    have heq : { w with safeOutputs := none } = w := by rw [← h]
    exact heq ▸ absent w
  | some s =>
    have heq : { w with safeOutputs := some s } = w := by rw [← h]
    exact heq ▸ present w s

end Workflow

/-! ## Safe outputs that are seen alike -/

/-- Safe outputs that jobs other than their own see in the same way. -/
structure SafeOutputs.SeenAlike (s s' : SafeOutputs) : Prop where
  kinds : s'.outputs.map (·.kind) = s.outputs.map (·.kind)
  staged : s'.staged = s.staged
  limits : Workflow.outputLimits s' = Workflow.outputLimits s
  noop : (s'.get? .noop).map (·.max) = (s.get? .noop).map (·.max)
  permissions : s'.jobPermissions = s.jobPermissions
  exposed : s'.exposed = s.exposed
  messages : s'.messageVariables = s.messageVariables
  runsOn : s'.runsOn = s.runsOn

theorem SafeOutputs.SeenAlike.isEmpty_eq {s s' : SafeOutputs} (h : s.SeenAlike s') :
    s'.outputs.isEmpty = s.outputs.isEmpty := by
  rw [← List.isEmpty_map, h.kinds, List.isEmpty_map]

def Workflow.withOutputs (w : Workflow) (f : SafeOutputs → SafeOutputs) : Workflow :=
  { w with safeOutputs := w.safeOutputs.map f }

section SeenAlike

variable {f : SafeOutputs → SafeOutputs} (hf : ∀ s : SafeOutputs, s.SeenAlike (f s)) (w : Workflow)
include hf

theorem Mcp.hasOutputs_withOutputs : hasOutputs (w.withOutputs f) = hasOutputs w := by
  rw [hasOutputs, hasOutputs, Workflow.withOutputs]
  cases w.safeOutputs with
  | none => rfl
  | some s => rw [map_some, any_some, any_some, (hf s).isEmpty_eq]

omit hf in
theorem Engine.outputsVariable_withOutputs :
    outputsVariable (w.withOutputs f) = outputsVariable w := by
  rw [outputsVariable, outputsVariable, Workflow.withOutputs, isSome_map]

theorem Engine.serverSteps_withOutputs (e : Engine) (ctx : Context) :
    e.serverSteps (w.withOutputs f) ctx = e.serverSteps w ctx := by
  have hservers : ∀ typed fetches,
      Mcp.servers (w.withOutputs f) typed fetches = Mcp.servers w typed fetches := by
    intro typed fetches
    rw [Mcp.servers, Mcp.servers, Mcp.builtIn, Mcp.builtIn, Mcp.hasOutputs_withOutputs hf]
    rfl
  have hconfig : ∀ toml typed fetches, Mcp.configText (w.withOutputs f) toml typed fetches =
      Mcp.configText w toml typed fetches := by
    intro toml typed fetches
    rw [Mcp.configText, Mcp.configText, hservers]
  rw [serverSteps, serverSteps, Mcp.setupSteps, Mcp.setupSteps, hconfig]
  rfl

theorem Engine.command_withOutputs (e : Engine) : e.command (w.withOutputs f) = e.command w := by
  have hcopilot : copilotTools (w.withOutputs f) = copilotTools w := by
    rw [copilotTools, copilotTools, Mcp.hasOutputs_withOutputs hf]
    rfl
  have hclaude : claudeTools (w.withOutputs f) = claudeTools w := by
    rw [claudeTools, claudeTools, Mcp.hasOutputs_withOutputs hf]
    rfl
  cases e with
  | copilot =>
    have hline : copilotCommand (w.withOutputs f) = copilotCommand w := by
      rw [copilotCommand, copilotCommand, hcopilot]
      rfl
    rw [command, command, hline]
  | claude =>
    have hline : claudeCommand (w.withOutputs f) = claudeCommand w := by
      rw [claudeCommand, claudeCommand, hclaude]
      rfl
    rw [command, command, hline]
  | codex => rfl
  | gemini => rfl
  | custom => rfl

theorem Engine.runSteps_withOutputs (e : Engine) (ctx : Context) :
    e.runSteps (w.withOutputs f) ctx = e.runSteps w ctx := by
  have hscript : e.runScript (w.withOutputs f) = e.runScript w := by
    have hfirewall : e.usesFirewall (w.withOutputs f) = e.usesFirewall w := rfl
    have hdomains : e.domains (w.withOutputs f) = e.domains w := rfl
    have hnetwork : (w.withOutputs f).network = w.network := rfl
    unfold runScript
    dsimp only
    rw [command_withOutputs hf, hfirewall, hdomains, hnetwork]
  have henvironment : e.environment (w.withOutputs f) = e.environment w := by
    rw [environment, environment, outputsVariable_withOutputs]
    rfl
  have hstep : customStep (w.withOutputs f) = customStep w := by
    funext step
    rw [customStep, customStep, customEnvironment, customEnvironment, outputsVariable_withOutputs]
    rfl
  unfold runSteps
  split
  · rw [hstep]
    rfl
  · rw [hscript, henvironment]
    rfl

theorem Prompt.steps_withOutputs (ctx : Context) :
    Prompt.steps (w.withOutputs f) ctx = Prompt.steps w ctx := by
  have hsection : outputsSection (w.withOutputs f) = outputsSection w := by
    rw [outputsSection, outputsSection, Workflow.withOutputs]
    cases w.safeOutputs with
    | none => rfl
    | some s =>
      have hnames := congrArg (List.map fun kind : SafeOutput.Kind => s!"`{kind.handlerKey}`")
        (hf s).kinds
      rw [List.map_map, List.map_map] at hnames
      dsimp only [map_some]
      rw [(hf s).isEmpty_eq]
      exact congrArg _ (congrArg (_ ++ ", ".intercalate · ++ "\n") hnames)
  have htext : text (w.withOutputs f) = text w := by
    rw [text, text, hsection]
    rfl
  rw [steps, steps, htext]
  rfl

namespace Workflow

theorem activationJob_withOutputs (engine : Engine) (ctx : Context) :
    (w.withOutputs f).activationJob engine ctx = w.activationJob engine ctx := by
  have hstaged : (w.withOutputs f).safeOutputs.any (·.staged) = w.safeOutputs.any (·.staged) := by
    rw [withOutputs, any_map]
    exact congrArg (w.safeOutputs.any ·) (funext fun s => (hf s).staged)
  have hinfo : (w.withOutputs f).runInfo engine ctx = w.runInfo engine ctx := by
    unfold runInfo
    dsimp only
    rw [hstaged]
    rfl
  unfold activationJob
  rw [hinfo]
  rfl

theorem configuredOutputs?_withOutputs :
    (w.withOutputs f).configuredOutputs? = w.configuredOutputs?.map f := by
  rw [configuredOutputs?, configuredOutputs?, withOutputs]
  cases w.safeOutputs with
  | none => rfl
  | some s =>
    simp only [map_some, filter_some, (hf s).isEmpty_eq]
    split <;> rfl

theorem agentJob_withOutputs (engine : Engine) (ctx : Context) :
    (w.withOutputs f).agentJob engine ctx = w.agentJob engine ctx := by
  have hlimits : (w.withOutputs f).limitSteps = w.limitSteps := by
    rw [limitSteps, limitSteps, configuredOutputs?_withOutputs hf]
    cases w.configuredOutputs? with
    | none => rfl
    | some s =>
      dsimp only [map_some]
      rw [(hf s).limits]
  have hcollect : (w.withOutputs f).collectSteps engine ctx = w.collectSteps engine ctx := by
    have hpush : ∀ s : SafeOutputs, (f s).outputs.any (·.kind.isPush) =
        s.outputs.any (·.kind.isPush) := by
      intro s
      have hany := congrArg (List.any · SafeOutput.Kind.isPush) (hf s).kinds
      rwa [List.any_map, List.any_map] at hany
    rw [collectSteps, collectSteps, configuredOutputs?_withOutputs hf]
    cases w.configuredOutputs? with
    | none => rfl
    | some s =>
      dsimp only [map_some]
      rw [hpush]
      rfl
  have houtputs : (w.withOutputs f).configuredOutputs?.isSome = w.configuredOutputs?.isSome := by
    rw [configuredOutputs?_withOutputs hf, isSome_map]
  unfold agentJob
  rw [hlimits, engine.serverSteps_withOutputs hf, Prompt.steps_withOutputs hf,
    engine.runSteps_withOutputs hf, hcollect, houtputs]
  rfl

theorem conclusionJob?_withOutputs (ctx : Context) (needs : List String) :
    (w.withOutputs f).conclusionJob? ctx needs = w.conclusionJob? ctx needs := by
  have hpermissions : (w.withOutputs f).conclusionPermissions = w.conclusionPermissions := by
    rw [conclusionPermissions, conclusionPermissions, withOutputs]
    cases w.safeOutputs with
    | none => rfl
    | some s =>
      dsimp only [map_some]
      rw [(hf s).permissions]
  have hnoop : ∀ (s : SafeOutputs) identity,
      noopSteps (f s) ctx identity = noopSteps s ctx identity := by
    intro s identity
    have hget := (hf s).noop
    unfold noopSteps
    cases hs : s.get? .noop with
    | none =>
      rw [hs] at hget
      rw [map_eq_none_iff.mp hget]
    | some o =>
      rw [hs] at hget
      obtain ⟨o', ho', hmax⟩ := map_eq_some_iff.mp hget
      simp only [ho', hmax]
  rw [conclusionJob?, conclusionJob?, configuredOutputs?_withOutputs hf, hpermissions]
  cases w.configuredOutputs? with
  | none => rfl
  | some s =>
    dsimp only [map_some]
    rw [hnoop, (hf s).messages, (hf s).runsOn]
    rfl

theorem head_withOutputs (permissions : Permissions) :
    (w.withOutputs f).head permissions = w.head permissions := by
  have hcall : SafeOutputs.callOutputs (w.withOutputs f).safeOutputs =
      SafeOutputs.callOutputs w.safeOutputs := by
    rw [withOutputs]
    cases w.safeOutputs with
    | none => rfl
    | some s =>
      dsimp only [map_some, SafeOutputs.callOutputs]
      rw [(hf s).exposed]
  have hon : SafeOutputs.injectOutputs w.on (w.withOutputs f).safeOutputs =
      SafeOutputs.injectOutputs w.on w.safeOutputs := by
    rw [SafeOutputs.injectOutputs, SafeOutputs.injectOutputs, hcall]
  rw [head, head]
  change _ :: ("on", w.writtenOn (SafeOutputs.injectOutputs w.on
    (w.withOutputs f).safeOutputs)) :: _ = _
  rw [hon]
  rfl

end Workflow

end SeenAlike

/-! ## Running the engine -/

namespace Workflow

/-- A workflow with other environments than those of the safe outputs. -/
def withRunning (w : Workflow) (own running : Table String) : Workflow :=
  { w with environment := own, engine := w.engine.withEnvironment running }

variable (w : Workflow) (own running processing : Table String)

theorem withEnvironments_eq : w.withEnvironments own running processing =
    (w.withRunning own running).withOutputs (·.withEnvironment processing) := rfl

end Workflow

theorem SafeOutputs.seenAlike_withEnvironment (processing : Table String) (s : SafeOutputs) :
    s.SeenAlike (s.withEnvironment processing) :=
  ⟨rfl, rfl, rfl, rfl, rfl, rfl, rfl, rfl⟩

namespace Engine

variable {w : Workflow} {own running : Table String}

theorem shuffled_customEnvironment (h : Shuffled w.engine.environment running) :
    Shuffled (customEnvironment w) (customEnvironment (w.withRunning own running)) := by
  refine (Shuffled.refl ?_).update h
  unfold outputsVariable turnsVariable
  cases w.safeOutputs <;> cases w.engine.maxTurns <;> simp [keys]

theorem customStep_withRunning (h : Shuffled w.engine.environment running)
    (step : Entries) : customStep (w.withRunning own running) step = customStep w step := by
  have hgiven : Shuffled ((customEnvironment w).map fun e => (e.1, str e.2))
      ((customEnvironment (w.withRunning own running)).map fun e => (e.1, str e.2)) :=
    (shuffled_customEnvironment h).map str
  unfold customStep
  dsimp only
  rw [(hgiven.update_of_last? fun _ => rfl).sorted_eq]

theorem isAllowed_congr {allowed allowed' : List String}
    (h : ∀ name, name ∈ allowed ↔ name ∈ allowed') (key text : String) :
    isAllowed allowed key text = isAllowed allowed' key text := by
  have hcontains : ∀ name, allowed.contains name = allowed'.contains name := fun name => by
    rw [Bool.eq_iff_iff, List.contains_iff_mem, List.contains_iff_mem, h]
  unfold isAllowed
  simp only [hcontains]

theorem shuffled_environment (e : Engine) (h : Shuffled w.engine.environment running) :
    Shuffled (e.environment w) (e.environment (w.withRunning own running)) := by
  have hmodel : ∀ name ∈ ["GH_AW_PROMPT", "GITHUB_WORKSPACE", "GITHUB_STEP_SUMMARY",
      "GH_AW_SAFE_OUTPUTS"], name ≠ e.modelVariable := by
    cases e <;> decide
  have hallowed : ∀ key text,
      isAllowed (e.profile.secrets ++ keys (Mcp.secretEnvironment w) ++
        keys w.engine.environment) key text =
      isAllowed (e.profile.secrets ++ keys (Mcp.secretEnvironment w) ++
        keys running) key text :=
    isAllowed_congr fun name => by
      rw [List.mem_append, List.mem_append (s := _ ++ _), Reordered.mem_keys_iff h]
  unfold environment
  rw [filter, filter]
  simp only [hallowed]
  refine ((Shuffled.refl ?_).update h).filter _
  refine nodup_keys_update (nodup_keys_update ?_ _) _
  simp only [List.forall_mem_cons] at hmodel
  unfold outputsVariable
  cases w.safeOutputs <;> cases w.engine.model.isEmpty <;> simp [keys, hmodel]

theorem runSteps_withRunning (e : Engine) (ctx : Context)
    (h : Shuffled w.engine.environment running) :
    e.runSteps (w.withRunning own running) ctx = e.runSteps w ctx := by
  have hstep : customStep (w.withRunning own running) = customStep w :=
    funext (customStep_withRunning h)
  unfold runSteps
  split
  · rw [hstep]
    rfl
  · rw [scriptStep, scriptStep, (shuffled_environment e h).sorted_eq]
    rfl

end Engine

/-! ## Jobs -/

def Job.WrittenAlike (job job' : Job) : Prop :=
  job'.toValue = job.toValue ∧ job'.outline = job.outline

theorem Job.keepsOutline_writtenAlike : Job.KeepsOutline Job.WrittenAlike :=
  fun _ _ h => h.2

theorem Job.writtenAlike_environment (job : Job) {environment : Table Value}
    (h : Shuffled job.environment environment) :
    job.WrittenAlike { job with environment } := by
  refine ⟨?_, rfl⟩
  rw [Job.toValue, Job.toValue, h.sorted_eq, h.isEmpty_eq]

theorem SafeOutputs.lifts_job?_withEnvironment {s : SafeOutputs} {processing : Table String}
    (h : Table.Shuffled s.environment processing) (ctx : Context) (name id tracker : String) :
    Lifts (Rel Job.WrittenAlike) (s.job? ctx name id tracker)
      ((s.withEnvironment processing).job? ctx name id tracker) := by
  have hhandled : (s.withEnvironment processing).handled = s.handled := rfl
  unfold job?
  rw [hhandled]
  split
  · exact .ok .none
  · exact .bind_same (s.jobSteps ctx name id tracker) fun steps =>
      .ok (.some (Job.writtenAlike_environment _ (h.map str)))

namespace Workflow

variable {w : Workflow} {own running processing : Table String} (engine : Engine) (ctx : Context)

theorem agentJob_withEnvironments (h : Table.Shuffled w.engine.environment running) :
    (w.withEnvironments own running processing).agentJob engine ctx = w.agentJob engine ctx := by
  rw [withEnvironments_eq, agentJob_withOutputs (SafeOutputs.seenAlike_withEnvironment processing)]
  unfold agentJob
  rw [engine.runSteps_withRunning ctx h]
  rfl

theorem lifts_outputJobs_withEnvironments
    (h : ∀ s, w.safeOutputs = some s → Table.Shuffled s.environment processing) :
    Lifts (List.Forall₂ Job.WrittenAlike) (w.outputJobs ctx)
      ((w.withEnvironments own running processing).outputJobs ctx) := by
  have hself : ∀ jobs : List Job, List.Forall₂ Job.WrittenAlike jobs jobs := fun jobs =>
    List.forall₂_same.mpr fun _ _ => ⟨rfl, rfl⟩
  cases w using cases_safeOutputs with
  | absent w => exact .ok .nil
  | present w s =>
    refine (SafeOutputs.lifts_job?_withEnvironment (h s rfl) ctx _ _ _).bind fun job job' hjob => ?_
    refine .bind_same (s.reports.mapM fun o => s.reportJob ctx o w.name w.id w.tracker)
      fun reports => .ok (List.rel_append ?_ (hself reports))
    cases hjob with
    | none => exact .nil
    | some h => exact .cons h .nil

/-- **The jobs of a workflow whose environments come in another order** are written in the
same way. -/
theorem lifts_withEnvironments (hrunning : Table.Shuffled w.engine.environment running)
    (hprocessing : ∀ s, w.safeOutputs = some s → Table.Shuffled s.environment processing) :
    Lifts (fun built built' =>
        JobGraph.Alike Job.WrittenAlike built.1 built'.1 ∧ built.2 = built'.2)
      (w.jobs engine ctx) ((w.withEnvironments own running processing).jobs engine ctx) := by
  have hseen := SafeOutputs.seenAlike_withEnvironment processing
  have hself : ∀ job : Job, job.WrittenAlike job := fun _ => ⟨rfl, rfl⟩
  have hselfOption : ∀ job : Option Job, Rel Job.WrittenAlike job job := by
    intro job
    cases job with
    | none => exact .none
    | some job => exact .some (hself job)
  refine lifts_jobs Job.keepsOutline_writtenAlike ?_ ?_
    (lifts_outputJobs_withEnvironments ctx hprocessing) ?_ fun needs => ?_
  · rw [withEnvironments_eq, activationJob_withOutputs hseen]
    exact fun job h => ⟨job, h, hself job⟩
  · rw [agentJob_withEnvironments engine ctx hrunning]
    exact fun built h => ⟨built, h, hself built.1, rfl⟩
  · exact fun job h => ⟨job, h, hselfOption job⟩
  · rw [withEnvironments_eq, conclusionJob?_withOutputs hseen]
    exact fun job h => ⟨job, h, hselfOption job⟩

/-! ## What is written -/

theorem head_withEnvironments (h : Table.Shuffled w.environment own) (permissions : Permissions) :
    (w.withEnvironments own running processing).head permissions = w.head permissions := by
  have henvironment : sorted own = sorted w.environment := h.sorted_eq.symm
  rw [withEnvironments_eq, head_withOutputs (SafeOutputs.seenAlike_withEnvironment processing),
    head, head]
  change _ ++ Mcp.environmentEntry (sorted own) = _
  rw [henvironment]
  rfl

theorem check_withEnvironments (strict : Bool) :
    (w.withEnvironments own running processing).check engine strict = w.check engine strict := by
  cases w using cases_safeOutputs with
  | absent w => rfl
  | present w s => rfl

theorem written_of_alike {graph graph' : JobGraph}
    (h : JobGraph.Alike Job.WrittenAlike graph graph') (head : List (String × Value)) :
    written head graph'.jobs = written head graph.jobs := by
  have hjobs : graph'.jobs.map (fun job => (job.name, job.toValue)) =
      graph.jobs.map fun job => (job.name, job.toValue) :=
    map_eq_of_forall₂ (fun _ _ hjob => Prod.ext (congrArg Job.Outline.name hjob.2) hjob.1) h
  rw [written, written, hjobs]

end Workflow

end FlowLock
