import FlowLock.GitHubApp
import FlowLock.SafeOutput.Output
import FlowLock.Text.Closest

/-!
# The safe-outputs section

The configured types of a workflow, in the order of the types and never of their
declaration, and the settings that hold for all of them.  Types that only imports
declare are added; what the workflow itself declares is never overridden.
-/

namespace FlowLock

open SafeOutput Entries

structure SafeOutputs where
  outputs : List Output
  /-- They come in the order of the types, each type at most once. -/
  ordered : (outputs.map (·.kind)).Sublist Kind.all
  token : String := ""
  app : Option GitHubApp := none
  staged : Bool := false
  environment : Table String := []
  /-- Steps of the workflow that run before the processing step. -/
  steps : List Value := []
  maxPatchSize : Int := 1024
  footer : Option String := none
  idToken : Option String := none
  runsOn : String := "ubuntu-slim"
  messages : Table String := []
  allowedDomains : List String := []
deriving Repr

namespace SafeOutputs

instance : Inhabited SafeOutputs := ⟨{ outputs := [], ordered := List.nil_sublist _ }⟩

def sectionKeys : List String :=
  ["github-token", "app", "staged", "env", "steps", "max-patch-size", "footer", "id-token",
   "runs-on", "allowed-domains", "messages", "jobs"]

def messageKeys : List String :=
  ["footer", "footer-install", "staged-title", "staged-description", "run-started",
   "run-success", "run-failure"]

/-- The type with a key, or a refusal that suggests the closest one. -/
def readKind (key : String) : Outcome Kind :=
  match Kind.ofKey? key with
  | some kind => .ok kind
  | none =>
    .error (.schema ("safe-outputs." ++ key)
      (.unknownOutput key (Text.closest? key (Kind.all.map (·.key)))))

def declaredIn : Entries → Table Value → Outcome (Table Value)
  | [], done => .ok done
  | (key, value) :: rest, done =>
    if sectionKeys.contains key.plain && key.str?.isSome then declaredIn rest done
    else do
      let _ ← readKind key.plain
      declaredIn rest (done.set key.plain value)

def declaredWith : Table Value → Table Value → Outcome (Table Value)
  | [], done => .ok done
  | (key, value) :: rest, done =>
    if sectionKeys.contains key || done.has key then declaredWith rest done
    else do
      let _ ← readKind key
      declaredWith rest (done.set key value)

/-- The setting of a type that is configured; false disables it. -/
def configured? (declared : Table Value) (kind : Kind) : Option Value :=
  match declared.get? kind.key with
  | none => none
  | some (.bool false) => none
  | some setting => some setting

/-- The configured types among some types, in their order. -/
def parseOutputs (declared : Table Value) : (kinds : List Kind) →
    Outcome { outputs : List Output // (outputs.map (·.kind)).Sublist kinds }
  | [] => .ok ⟨[], .slnil⟩
  | kind :: kinds =>
    match configured? declared kind with
    | none => do
      let rest ← parseOutputs declared kinds
      .ok ⟨rest.val, rest.property.cons kind⟩
    | some setting =>
      match h : Output.parse kind setting with
      | .error e => .error e
      | .ok o => do
        let rest ← parseOutputs declared kinds
        .ok ⟨o :: rest.val, by simpa [Output.kind_of_parse h] using rest.property⟩

def readStaged (es : Entries) : Outcome Bool :=
  match get? es "staged" with
  | none => .ok false
  | some (.bool b) => .ok b
  | some _ => .error (.mustBe "safe-outputs.staged" .boolean none)

def readPatchSize (es : Entries) : Outcome Int :=
  match get? es "max-patch-size" with
  | none => .ok 1024
  | some (.int n) => .ok n
  | some _ => .error (.mustBe "safe-outputs.max-patch-size" .kilobytes none)

def readSteps (es : Entries) : Outcome (List Value) :=
  let v := getD es "steps"
  match v with
  | .list steps => .ok steps
  | v => if v.truthy then .error (.mustBe "safe-outputs.steps" .array none) else .ok []

def readText (es : Entries) (key default : String) : Outcome String :=
  match get? es key with
  | none => .ok default
  | some (.str s) => .ok s
  | some _ => .error (.mustBe ("safe-outputs." ++ key) .string none)

def variableText : Value → String
  | .bool b => Template.ofBool b
  | v => v.plain

def readEnvironment : Value → Outcome (Table String)
  | .null => .ok []
  | .map es => .ok (.ofWritten (es.map fun e => (e.1.plain, variableText e.2)))
  | _ => .error (.mustBe "safe-outputs.env" .mapping none)

def readFooter (v : Value) : Outcome (Option String) :=
  let refusal := Error.mustBe "safe-outputs.footer" (.templated .boolean) (some v.literal)
  match v with
  | .null => .ok none
  | v =>
    v.template >>= fun
    | some s =>
      if isSwitch s || Template.isExpression s then .ok (some s) else .error refusal
    | none => .error refusal

def readIdToken : Value → Outcome (Option String)
  | .null => .ok none
  | .str "write" => .ok (some "write")
  | .str "none" => .ok (some "none")
  | v => .error (.mustBe "safe-outputs.id-token" (.either "write" "none") (some v.literal))

/-- The name of a message in the handler's spelling: words after the first are
capitalized and joined. -/
def messageName (key : String) : String :=
  match Text.splitOn key '-' with
  | [] => ""
  | head :: rest => head ++ String.join (rest.map Text.capitalize)

def readMessage (entry : Value × Value) : Outcome (String × String) :=
  let key := entry.1.plain
  let name := "safe-outputs.messages." ++ key
  if !(messageKeys.contains key && entry.1.str?.isSome) then
    .error (.schema name (.unknownMessage key messageKeys))
  else match entry.2 with
    | .str template => .ok (messageName key, template)
    | _ => .error (.mustBe name .string none)

def readMessages : Value → Outcome (Table String)
  | .null => .ok []
  | .map es => do .ok (.ofWritten (← es.mapM readMessage))
  | _ => .error (.mustBe "safe-outputs.messages" .mapping none)

def readDomains : Value → Outcome (List String)
  | .null => .ok []
  | v =>
    match v.strings? with
    | some domains => .ok domains
    | none => .error (.mustBe "safe-outputs.allowed-domains" .strings none)

def ofEntries (es : Entries) (imported : Table Value) : Outcome SafeOutputs := do
  let declared ← declaredWith imported (← declaredIn es [])
  let ⟨outputs, ordered⟩ ← parseOutputs declared Kind.all
  let staged ← readStaged es
  let maxPatchSize ← readPatchSize es
  let steps ← readSteps es
  let token ← readText es "github-token" ""
  let runsOn ← readText es "runs-on" "ubuntu-slim"
  if has es "jobs" then .error (.schema "safe-outputs.jobs" .customJobs)
  let app ← GitHubApp.parse (getD es "app") "safe-outputs.app"
  let environment ← readEnvironment (getD es "env")
  let footer ← readFooter (getD es "footer")
  let idToken ← readIdToken (getD es "id-token")
  let messages ← readMessages (getD es "messages")
  let allowedDomains ← readDomains (getD es "allowed-domains")
  .ok { outputs, ordered, token, app, staged, environment, steps, maxPatchSize, footer, idToken, runsOn,
        messages, allowedDomains }

/-- The section of a workflow; there is none when neither the workflow nor its
imports have one. -/
def parse (setting : Value) (imported : Table Value) : Outcome (Option SafeOutputs) :=
  match setting with
  | .null => if imported.isEmpty then .ok none else do .ok (some (← ofEntries [] imported))
  | .map es => do .ok (some (← ofEntries es imported))
  | v => .error (.mustBe "safe-outputs" .mapping (some v.kindName))

/-! ## Views -/

def keys (s : SafeOutputs) : List String := s.outputs.map (·.kind.key)

def get? (s : SafeOutputs) (kind : Kind) : Option Output :=
  s.outputs.find? fun o => o.kind == kind

def handled (s : SafeOutputs) : List Output := s.outputs.filter fun o => !o.kind.isReport

def reports (s : SafeOutputs) : List Output := s.outputs.filter fun o => o.kind.isReport

def usesProjects (s : SafeOutputs) : Bool := s.outputs.any fun o => o.kind.isProject

/-- The access that the processing job takes, the identity token apart. -/
def permissions (s : SafeOutputs) : Permissions :=
  .joinAll (s.handled.map (·.permissions))

def jobPermissions (s : SafeOutputs) : Permissions :=
  s.permissions.withIdToken s.steps s.idToken

end SafeOutputs

end FlowLock
