import FlowLock.SafeOutput.Section
import FlowLock.Step

/-!
# Handling safe outputs

What the step that carries out safe outputs is given: the configuration of the
handlers, a token, and environment variables.
-/

namespace FlowLock

open SafeOutput Step

namespace SafeOutputs

def jobName : String := "safe_outputs"

def stepId : String := "process_safe_outputs"

def appStepId : String := "safe-outputs-app-token"

/-- The token that is used when nothing else is configured. -/
def defaultToken : String :=
  expression "secrets.GH_AW_GITHUB_TOKEN || secrets.GITHUB_TOKEN"

def projectToken : String := expression "secrets.GH_AW_PROJECT_GITHUB_TOKEN"

def appToken : String := expression s!"steps.{appStepId}.outputs.token"

def handlerEntry (footer : Option String) (o : Output) : Outcome (String × Value) := do
  let settings ← o.handlerSettings
  let settings :=
    match footer with
    | some s =>
      if o.hasFooter && !Table.has settings "footer" then
        settings ++ [("footer", Output.switchValue s)]
      else settings
    | none => settings
  .ok (o.kind.handlerKey, .obj settings)

def handlerConfig (s : SafeOutputs) : Outcome Value := do
  .ok (.obj (← s.handled.mapM (handlerEntry s.footer)))

/-- The token of the processing step: the section's own, the app's, the one for
projects if it is needed, or the default. -/
def processingToken (s : SafeOutputs) : String :=
  if !s.token.isEmpty then s.token
  else if s.app.isSome then appToken
  else if s.usesProjects then projectToken
  else defaultToken

def triggerToken (setting : String) : String :=
  if setting.isEmpty then expression "secrets.GH_AW_CI_TRIGGER_TOKEN"
  else if setting == "app" then expression s!"steps.{appStepId}.outputs.token || ''"
  else setting

/-- The setting for the extra commit: that of the first type that pushes commits. -/
def triggerSetting? (s : SafeOutputs) : Option String :=
  (s.handled.find? fun o => o.kind.isPush).map fun o => o.text Kind.commitToken.name

def messageVariables (s : SafeOutputs) : Outcome (Table String) :=
  if s.messages.isEmpty then .ok []
  else do
    let text ← orFatal (Json.encode? Json.compact (texts s.messages))
    .ok [("GH_AW_SAFE_OUTPUT_MESSAGES", text)]

def identity (name id tracker : String) : Table String :=
  [("GH_AW_WORKFLOW_NAME", name), ("GH_AW_WORKFLOW_ID", id)] ++
  (if tracker.isEmpty then [] else [("GH_AW_TRACKER_ID", tracker)])

/-- The environment of the processing step, what identifies the workflow apart. -/
def processingEnvironment (s : SafeOutputs) : Outcome (Table String) := do
  let handlers ← orFatal (Json.encode? Json.compact (← s.handlerConfig))
  let own : Table String :=
    [("GH_AW_SAFE_OUTPUTS_HANDLER_CONFIG", handlers)] ++
    (match s.triggerSetting? with
      | some setting => [("GH_AW_CI_TRIGGER_TOKEN", triggerToken setting)]
      | none => []) ++
    (if s.staged then [("GH_AW_SAFE_OUTPUTS_STAGED", "true")] else []) ++
    (if s.maxPatchSize == 0 then [] else [("GH_AW_MAX_PATCH_SIZE", toString s.maxPatchSize)]) ++
    (if s.allowedDomains.isEmpty then []
     else [("GH_AW_ALLOWED_DOMAINS", ",".intercalate s.allowedDomains)])
  let messages ← s.messageVariables
  let contributed ← s.handled.mapM (·.environment)
  .ok (Table.update (Table.update own messages) contributed.flatten)

def textValues (t : Table String) : Table Value := t.map fun (key, text) => (key, .str text)

end SafeOutputs

end FlowLock
