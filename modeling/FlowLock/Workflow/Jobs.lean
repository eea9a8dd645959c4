import FlowLock.Checkout.Plan
import FlowLock.Engine.Run
import FlowLock.Job.Graph
import FlowLock.Prompt
import FlowLock.SafeOutput.Jobs

/-!
# The jobs of a workflow

A compiled workflow starts with a job that prepares the run, and goes on with the
job of the agent.  After that come the jobs for safe outputs, the job that pushes
the memory branch, and a job that concludes the run and waits for all others.
-/

namespace FlowLock.Workflow

open Table Template Step SafeOutputs

def activationName : String := "activation"

def agentName : String := "agent"

def conclusionName : String := "conclusion"

def outputsFile : String := "/tmp/gh-aw/safeoutputs/outputs.jsonl"

def collectStepId : String := "collect_output"

/-! ## Activation -/

def runInfo (w : Workflow) (engine : Engine) (ctx : Context) : Table Value :=
  let firewall := engine.usesFirewall w
  let model :=
    if !w.engine.model.isEmpty || engine == .custom then w.engine.model
    else expression s!"vars.{engine.modelVariable} || ''"
  textValues
    [("GH_AW_INFO_ENGINE_ID", engine.id),
     ("GH_AW_INFO_ENGINE_NAME", engine.profile.name),
     ("GH_AW_INFO_MODEL", model),
     ("GH_AW_INFO_VERSION", w.engine.version),
     ("GH_AW_INFO_AGENT_VERSION", engine.version w ctx),
     ("GH_AW_INFO_WORKFLOW_NAME", w.name),
     ("GH_AW_INFO_EXPERIMENTAL", ofBool engine.profile.isExperimental),
     ("GH_AW_INFO_SUPPORTS_TOOLS_ALLOWLIST", ofBool engine.profile.supportsAllowlist),
     ("GH_AW_INFO_STAGED", ofBool (w.safeOutputs.any (·.staged))),
     ("GH_AW_INFO_ALLOWED_DOMAINS", Json.encodeTexts Json.spaced w.network.allowed),
     ("GH_AW_INFO_FIREWALL_ENABLED", ofBool firewall),
     ("GH_AW_INFO_AWF_VERSION", if firewall then Engine.firewallVersion w ctx else ""),
     ("GH_AW_INFO_FIREWALL_TYPE", if firewall then "squid" else ""),
     ("GH_AW_INFO_CLI_VERSION", ctx.config.compilerVersion)]

/-- The job that prepares the run.  What is known about the run is written down before
the secret is checked, so that it is there also when the check fails. -/
def activationJob (w : Workflow) (engine : Engine) (ctx : Context) : Outcome Job := do
  let setup ← setup ctx
  let checkout ← ctx.pin "actions/checkout"
  let timestamps ← script ctx
    { name := "Check workflow file timestamps"
      handler := "check_workflow_timestamp_api"
      environment := [("GH_AW_WORKFLOW_FILE", .str s!"{w.id}.lock.yml")] }
  let info ← script ctx
    { name := "Generate agentic run info"
      handler := "generate_aw_info"
      id := "generate_aw_info"
      environment := runInfo w engine ctx
      call := "await main(core, context);" }
  let upload ← upload ctx "Upload activation artifact" "activation"
    ["/tmp/gh-aw/aw_info.json"] "warn" ""
  .ok
    { name := activationName
      condition := w.condition
      runsOn := .str "ubuntu-slim"
      permissions := .ofGrants [(.contents, .read)]
      timeoutMinutes := some 5
      steps := setup ++
        [.obj
          [("name", .str "Checkout .github and .agents folders"),
           ("uses", .str checkout),
           ("with", .obj
            [("persist-credentials", .bool false),
             ("sparse-checkout", .str ".github\n.agents\n"),
             ("fetch-depth", .int 1)])],
         timestamps, info] ++
        engine.secretStep?.toList ++ [upload] }

/-! ## The agent -/

def configuredOutputs? (w : Workflow) : Option SafeOutputs :=
  w.safeOutputs.filter fun s => !s.outputs.isEmpty

def outputLimits (s : SafeOutputs) : Outcome Value := do
  .ok (.obj (← s.outputs.mapM fun o => do
    .ok (o.kind.handlerKey, Value.obj [("max", .int (← o.maxCount))])))

def limitSteps (w : Workflow) : Outcome (List Value) :=
  match w.configuredOutputs? with
  | none => .ok []
  | some s => do
    let text ← orFatal (Json.encode? Json.compact (← outputLimits s))
    .ok [run "Write Safe Outputs Config"
      (s!"mkdir -p {Mcp.safeOutputsDirectory}\n" ++
       heredoc s!"{Mcp.safeOutputsDirectory}/config.json" text
        "GH_AW_SAFE_OUTPUTS_CONFIG_EOF")]

def collectSteps (w : Workflow) (engine : Engine) (ctx : Context) : Outcome (List Value) :=
  match w.configuredOutputs? with
  | none => .ok []
  | some s => do
    let raw ← upload ctx "Upload Safe Outputs" "safe-output" [outputsFile] "warn" "always()"
    let ingest ← script ctx
      { name := "Ingest agent output"
        handler := "collect_ndjson_output"
        id := collectStepId
        condition := "always()"
        environment := textValues
          [("GH_AW_ALLOWED_DOMAINS", ",".intercalate (engine.domains w)),
           ("GH_AW_SAFE_OUTPUTS", expression "env.GH_AW_SAFE_OUTPUTS"),
           ("GITHUB_API_URL", expression "github.api_url"),
           ("GITHUB_SERVER_URL", expression "github.server_url")] }
    let sanitized ← upload ctx "Upload sanitized agent output" "agent-output"
      [outputDirectory ++ "agent_output.json"] "warn" "always()"
    let patch ←
      if s.outputs.any fun o => o.kind.isPush then do
        .ok [← upload ctx "Upload git patch" "aw.patch" ["/tmp/gh-aw/aw.patch"] "ignore"
          "always()"]
      else Except.ok []
    .ok ([raw, ingest, sanitized] ++ patch)

/-- The steps before the agent runs, up to those of the workflow itself. -/
def prepareSteps (w : Workflow) (ctx : Context) : Outcome (List Value) := do
  let plan := Checkout.Plan.ofRequests w.checkouts
  let setup ← setup ctx
  let checkout ← plan.defaultStep ctx.pin
    (if ctx.config.trialMode then some ctx.config.trialRepository else none)
  let additional ← plan.additionalSteps ctx.pin
  let fetch ← download ctx "Download activation artifact" "activation" "/tmp/gh-aw"
  let caches ← Memory.cacheSteps w ctx
  .ok (setup ++ [checkout] ++ additional ++
    [run "Create gh-aw temp directory"
      "mkdir -p /tmp/gh-aw/agent /tmp/gh-aw/sandbox/agent/logs /tmp/gh-aw/safeoutputs\n",
     fetch] ++
    caches ++ Memory.cloneSteps w ++
    [run "Configure Git credentials" gitSetup] ++ w.steps)

/-- The permissions of the agent: those of the workflow, or to read its contents when
it has none. -/
def agentPermissions (w : Workflow) : Permissions :=
  if w.permissions.isEmpty then .ofGrants [(.contents, .read)] else w.permissions

def agentOutputs : Table Value :=
  textValues
    [("output", expression s!"steps.{collectStepId}.outputs.output"),
     ("output_types", expression s!"steps.{collectStepId}.outputs.output_types")]

def agentJob (w : Workflow) (engine : Engine) (ctx : Context) :
    Outcome (Job × List Warning) := do
  let prepare ← w.prepareSteps ctx
  let install ← engine.installSteps w ctx
  let limits ← w.limitSteps
  let servers ← engine.serverSteps w ctx
  let prompt ← Prompt.steps w ctx
  let (run, warnings) ← engine.runSteps w ctx
  let collect ← w.collectSteps engine ctx
  let logs ← upload ctx "Upload agent logs" "agent-stdio.log" [Engine.outputLog] "warn"
    "always()"
  let caches ← Memory.cacheUploads w ctx
  let branch ← Memory.branchUploads w ctx
  let hasOutputs := w.configuredOutputs?.isSome
  .ok
    ({ name := agentName
       needs := [activationName]
       runsOn := w.runsOn
       permissions := w.agentPermissions
       environment := if hasOutputs then [("GH_AW_SAFE_OUTPUTS", .str outputsFile)] else []
       outputs := if hasOutputs then agentOutputs else []
       steps := prepare ++ install ++ limits ++ servers ++ prompt ++ run ++ w.postSteps ++
        collect ++ [logs] ++ caches ++ branch }, warnings)

/-! ## Conclusion -/

def conclusionScopes : Permissions :=
  .ofGrants
    [(.contents, .read), (.discussions, .write), (.issues, .write), (.pullRequests, .write)]

def conclusionPermissions (w : Workflow) : Permissions :=
  let reading : Permissions := .ofGrants [(.contents, .read)]
  match w.safeOutputs with
  | none => reading
  | some s => reading.join (s.jobPermissions.meet conclusionScopes)

/-- The step that shows the messages of an agent that had nothing to do. -/
def noopSteps (s : SafeOutputs) (ctx : Context) (identity : Table String) :
    Outcome (List Value) :=
  match s.get? .noop with
  | none => .ok []
  | some o => do
    .ok [← script ctx
      { name := "Process No-Op Messages"
        handler := "noop"
        id := "noop"
        environment := textValues
          (update [("GH_AW_NOOP_MAX", o.max.getD "1")] identity)
        token := defaultToken }]

/-- The job that concludes the run after the given jobs, when there are safe outputs. -/
def conclusionJob? (w : Workflow) (ctx : Context) (needs : List String) :
    Outcome (Option Job) :=
  match w.configuredOutputs? with
  | none => .ok none
  | some s => do
    let identity := identity w.name w.id w.tracker
    let setup ← setup ctx
    let output ← agentOutput ctx
    let noop ← noopSteps s ctx identity
    let messages ← s.messageVariables
    let failure ← script ctx
      { name := "Handle Agent Failure"
        handler := "handle_agent_failure"
        id := "handle_agent_failure"
        environment := textValues (update (update
          [("GH_AW_AGENT_CONCLUSION", expression "needs.agent.result"),
           ("GH_AW_RUN_URL", expression "github.server_url" ++ "/" ++
            expression "github.repository" ++ "/actions/runs/" ++
            expression "github.run_id")] identity) messages)
        token := defaultToken }
    .ok (some
      { name := conclusionName
        needs
        condition := s!"(always()) && (needs.{agentName}.result != 'skipped')"
        runsOn := .str s.runsOn
        permissions := w.conclusionPermissions
        timeoutMinutes := some 10
        steps := setup ++ output ++ noop ++ [failure] })

/-! ## All jobs -/

def outputJobs (w : Workflow) (ctx : Context) : Outcome (List Job) :=
  match w.safeOutputs with
  | none => .ok []
  | some s => do
    let job ← s.job? ctx w.name w.id w.tracker
    let reports ← s.reports.mapM fun o => s.reportJob ctx o w.name w.id w.tracker
    .ok (job.toList ++ reports)

/-- The jobs of a workflow, each after the jobs it waits for, with the warnings of the
engine. -/
def jobs (w : Workflow) (engine : Engine) (ctx : Context) :
    Outcome (JobGraph × List Warning) := do
  let activation ← w.activationJob engine ctx
  let (agent, warnings) ← w.agentJob engine ctx
  let outputs ← w.outputJobs ctx
  let push ← Memory.pushJob? w ctx
  let graph ← ([activation, agent] ++ outputs ++ push.toList).foldlM JobGraph.add {}
  let conclusion ← w.conclusionJob? ctx graph.names
  let graph ← conclusion.toList.foldlM JobGraph.add graph
  graph.validate
  .ok (graph, warnings)

/-- The group in which runs of a workflow wait for each other when it names none. -/
def defaultConcurrency : Value :=
  texts [("group", "gh-aw-" ++ expression "github.workflow")]

/-- The workflow as it is written to the lock file, with the warnings of the engine.
Its permissions are those of its jobs together. -/
def compiled (w : Workflow) (engine : Engine) (ctx : Context) :
    Outcome (Value × List Warning) := do
  let (graph, warnings) ← w.jobs engine ctx
  let rendered ← graph.toValue
  .ok
    (.obj
      ([("name", .str w.name),
        ("on", w.writtenOn (injectOutputs w.on w.safeOutputs)),
        ("permissions", graph.permissions.toValue),
        ("concurrency", if w.concurrency.isNull then defaultConcurrency else w.concurrency),
        ("run-name", .str w.name)] ++
       Mcp.environmentEntry (sorted w.environment) ++
       [("jobs", rendered)]), warnings)

end FlowLock.Workflow
