import FlowLock.Job
import FlowLock.SafeOutput.Handler

/-!
# The jobs of safe outputs

One job carries out all types that are no reports; each report has a job of its
own.  A caller of the workflow sees what the processing job made.
-/

namespace FlowLock

open SafeOutput Step

namespace SafeOutputs

def gitSetup : String :=
  "git config --global user.email \"github-actions[bot]@users.noreply.github.com\"\n" ++
  "git config --global user.name \"github-actions[bot]\"\n"

/-- The steps that fetch the agent's patch and prepare to apply it, when some type
pushes commits. -/
def patchSteps (s : SafeOutputs) (ctx : Context) : Outcome (List Value) :=
  match s.triggerSetting? with
  | none => .ok []
  | some _ => do
    let patch ← download ctx "Download patch artifact" "aw.patch" "/tmp/gh-aw/"
    let uses ← ctx.pin "actions/checkout"
    .ok
      [patch,
       .obj [("name", .str "Checkout repository"), ("uses", .str uses),
        ("with", .obj [("persist-credentials", .bool false), ("fetch-depth", .int 1)])],
       run "Configure Git credentials" gitSetup]

def asksFor (kind : Kind) : String :=
  s!"contains(needs.agent.outputs.output_types, '{kind.handlerKey}')"

def jobCondition (s : SafeOutputs) : String :=
  "(!cancelled()) && needs.agent.result != 'skipped' && (" ++
  " || ".intercalate (s.handled.map fun o => asksFor o.kind) ++ ")"

def exposed (s : SafeOutputs) : List (String × String) :=
  s.handled.flatMap fun o => o.kind.spec.exposes

def jobOutputs (s : SafeOutputs) : Table Value :=
  .ofWritten (s.exposed.map fun (key, _) =>
    (key, .str (expression s!"steps.{stepId}.outputs.{key}")))

def appSteps (s : SafeOutputs) (ctx : Context) : Outcome (List Value) :=
  match s.app with
  | none => .ok []
  | some app => do .ok [← Step.appToken ctx app appStepId Step.appTokenName]

def jobSteps (s : SafeOutputs) (ctx : Context) (name id tracker : String) :
    Outcome (List Value) := do
  let setup ← setup ctx
  let app ← s.appSteps ctx
  let output ← agentOutput ctx
  let patch ← s.patchSteps ctx
  let environment ← s.processingEnvironment
  let process ← script ctx
    { name := "Process Safe Outputs"
      handler := "safe_output_handler_manager"
      id := stepId
      environment := textValues (Table.update environment (identity name id tracker))
      token := s.processingToken }
  .ok (setup ++ app ++ output ++ patch ++ s.steps ++ [process])

/-- The processing job, when there is something to carry out. -/
def job? (s : SafeOutputs) (ctx : Context) (name id tracker : String) : Outcome (Option Job) :=
  if s.handled.isEmpty then .ok none
  else do
    let steps ← s.jobSteps ctx name id tracker
    .ok (some
      { name := jobName
        needs := ["activation", "agent"]
        condition := s.jobCondition
        runsOn := .str s.runsOn
        permissions := s.jobPermissions
        timeoutMinutes := some 15
        environment := textValues s.environment
        outputs := s.jobOutputs
        steps })

/-! ## Reports -/

def reportName (kind : Kind) : String := kind.handlerKey

def reportStep : Kind → String
  | .missingData => "Record Missing Data"
  | _ => "Record Missing Tool"

def reportOutput : Kind → String
  | .missingData => "data_reported"
  | _ => "tools_reported"

def reportEnvironment (o : Output) : Table String :=
  let stem := o.kind.spec.variableStem
  (match o.max with
    | some max => [(stem ++ "_MAX", max)]
    | none => []) ++
  (if o.flag "create_issue" then
    [(stem ++ "_CREATE_ISSUE", "true"), (stem ++ "_TITLE_PREFIX", o.text "title_prefix"),
     (stem ++ "_LABELS", Json.encodeTexts Json.spaced (o.texts "labels"))]
   else [])

def reportJob (s : SafeOutputs) (ctx : Context) (o : Output) (name id tracker : String) :
    Outcome Job := do
  let job := reportName o.kind
  let setup ← setup ctx
  let output ← agentOutput ctx
  let report ← script ctx
    { name := reportStep o.kind
      handler := job
      id := job
      environment := textValues (Table.update (reportEnvironment o) (identity name id tracker))
      token := if o.token.isEmpty then s.processingToken else o.token }
  let reported := reportOutput o.kind
  .ok
    { name := job
      needs := ["agent"]
      condition := "(!cancelled()) && " ++ asksFor o.kind
      runsOn := .str s.runsOn
      permissions := o.permissions
      timeoutMinutes := some 5
      outputs :=
        [(reported, .str (expression s!"steps.{job}.outputs.{reported}")),
         ("total_count", .str (expression s!"steps.{job}.outputs.total_count"))]
      steps := setup ++ output ++ [report] }

/-! ## Outputs for callers -/

def callOutputs (s : Option SafeOutputs) : Table Value :=
  match s with
  | none => []
  | some s => .ofWritten (s.exposed.map fun (key, description) =>
      (key, texts [("description", description),
        ("value", expression s!"jobs.{jobName}.outputs.{key}")]))

/-- Generated outputs with those that the workflow declares itself, which win. -/
def mergeOutputs (generated : Entries) (declared : Value) : Entries :=
  match declared.entries? with
  | some es => Entries.update generated (es.filter fun e => e.2.entries?.isSome)
  | none => generated

/-- The triggers with outputs for callers, when the workflow can be called and there
are some. -/
def injectOutputs (triggers : Entries) (s : Option SafeOutputs) : Entries :=
  match Entries.get? triggers "workflow_call" with
  | none => triggers
  | some call =>
    let generated := callOutputs s
    if generated.isEmpty then triggers
    else
      let settings := call.entries?.getD []
      let outputs := mergeOutputs (generated.map fun (key, v) => (.str key, v))
        (Entries.getD settings "outputs")
      Entries.set triggers "workflow_call" (.map (Entries.set settings "outputs" (.map outputs)))

end SafeOutputs

end FlowLock
