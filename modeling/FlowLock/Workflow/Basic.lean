import FlowLock.Checkout.Request
import FlowLock.Engine.Settings
import FlowLock.Import.Resolve
import FlowLock.Network.Access
import FlowLock.SafeOutput.Section
import FlowLock.Tool.SafeInput
import FlowLock.Tool.Section
import FlowLock.Workflow.Trigger

/-!
# Workflows

Everything that a workflow document and its imports say, with a type for every
section.  Later stages read nothing but this.

A section of the wrong shape is refused here; whether its settings make sense
together is checked later, so that all that is wrong can be told at once.
-/

namespace FlowLock

open Entries

structure Workflow where
  name : String
  source : Path
  body : String
  on : Entries
  onDeclared : Value := .null
  engine : EngineSettings
  tools : Tools
  network : Network
  permissions : Permissions
  checkouts : List Checkout.Request
  safeOutputs : Option SafeOutputs
  imports : Imports
  mode : ActionMode := .dev
  digest : String := ""
  description : String := ""
  tracker : String := ""
  version : String := ""
  strict : Bool := false
  inlinesImports : Bool := false
  features : Entries := []
  environment : Table String := []
  steps : List Value := []
  postSteps : List Value := []
  runsOn : Value := .str "ubuntu-latest"
  timeoutMinutes : Int := 20
  concurrency : Value := .null
  condition : String := ""
  safeInputs : List SafeInput := []

namespace Workflow

/-! ## Questions -/

def isCallable (w : Workflow) : Bool := has w.on "workflow_call"

def id (w : Workflow) : String := w.source.stem

def agentFile (w : Workflow) : Option String := w.imports.agentFile

/-- Whether a value turns a feature on.  Some texts say no. -/
def isOnValue : Value → Bool
  | .str s => !(["", "false", "0", "no", "off"].contains (Text.lower (Text.trim s)))
  | v => v.truthy

def hasFeature (w : Workflow) (name : String) : Bool :=
  isOnValue (getD w.features name)

/-- The trigger section to write for some events: the section as it was declared
when it was a name or a list and the events are still the same. -/
def writtenOn (w : Workflow) (on : Entries) : Value :=
  let unchanged := (Value.map on).same (.map w.on)
  match w.onDeclared with
  | .str s => if unchanged then .str s else .map on
  | .list items => if unchanged then .list items else .map on
  | _ => .map on

/-! ## Building -/

/-- The name of a workflow: the name it declares, its first heading, or the name of
its file. -/
def nameOf (settings : Entries) (body : String) (source : Path) : String :=
  let fromBody := (Markdown.title? body).getD source.stem
  match getD settings "name" with
  | .str name => if Text.isAllBlank name then fromBody else Text.trim name
  | _ => fromBody

/-- The engine section, taken from the first import with one when the document has
none. -/
def engineSetting (settings : Entries) (imports : Imports) : Value :=
  match getD settings "engine" with
  | .null => imports.engines.headD .null
  | v => v

def parsePermissions (settings : Entries) (imports : Imports) : Outcome Permissions := do
  let own ← Permissions.parse (getD settings "permissions")
  if imports.permissions.isEmpty then .ok own
  else .ok (own.join (← Permissions.parse (.map imports.permissions)))

def parseFeatures (settings : Entries) (imports : Imports) : Outcome Entries :=
  let imported : Entries := imports.features.map fun e => (.str e.1, e.2)
  match getD settings "features" with
  | .null => .ok imported
  | v => do .ok (update imported (← Setting.object v "features"))

def checkSteps (name : String) : Nat → List Value → Outcome Unit
  | _, [] => .ok ()
  | index, step :: steps =>
    match step with
    | .map _ => checkSteps name (index + 1) steps
    | _ => .error (.schema name (.mustBe s!"{name}[{index}]" .object none))

def parseSteps (v : Value) (name : String) : Outcome (List Value) :=
  match v with
  | .null => .ok []
  | .map es => .ok [.map es]
  | .list steps => do
    checkSteps name 0 steps
    .ok steps
  | _ => .error (.mustBe name .steps none)

def parseTimeout (settings : Entries) : Outcome Int :=
  match get? settings "timeout-minutes" with
  | none => .ok 20
  | some (.int n) => .ok n
  | some _ => .error (.mustBe "timeout-minutes" .integer none)

def build (settings : Entries) (body : String) (source : Path) (imports : Imports)
    (mode : ActionMode) (digest : String) : Outcome Workflow := do
  let get (key : String) : Value := getD settings key
  let permissions ← parsePermissions settings imports
  let features ← parseFeatures settings imports
  let inlinesImports ← Setting.flag (get? settings "inlined-imports") "inlined-imports"
    false
  let strict ← Setting.flag (get? settings "strict") "strict" false
  let steps ← parseSteps (get "steps") "steps"
  let on ← Trigger.parse (get "on")
  let engine ← EngineSettings.parse (engineSetting settings imports) (get "sandbox")
  let tools ← Tools.parse (get "tools") (get "mcp-servers") imports.tools imports.servers
  let network ← Network.parse (get "network") imports.domains
  let checkouts ← Checkout.parse (get "checkout")
  let safeOutputs ← SafeOutputs.parse (get "safe-outputs") imports.safeOutputs
  let description ← Setting.text (get "description") "description" ""
  let tracker ← Setting.text (get "tracker-id") "tracker-id" ""
  let version ← Setting.text (get "version") "version" ""
  let environment ← Setting.environment (get "env") "env"
  let postSteps ← parseSteps (get "post-steps") "post-steps"
  let timeoutMinutes ← parseTimeout settings
  let condition ← Setting.text (get "if") "if" ""
  let safeInputs ← SafeInput.parseAll (get "safe-inputs")
  .ok
    { name := nameOf settings body source
      source
      body
      on
      onDeclared := get "on"
      engine
      tools
      network
      permissions
      checkouts
      safeOutputs
      imports
      mode
      digest
      description
      tracker
      version
      strict
      inlinesImports
      features
      environment
      steps := steps ++ imports.steps
      postSteps
      runsOn := (get? settings "runs-on").getD (.str "ubuntu-latest")
      timeoutMinutes
      concurrency := get "concurrency"
      condition
      safeInputs }

end Workflow

end FlowLock
