import FlowLock.SafeOutput.Kind
import FlowLock.Table

/-!
# Configured safe outputs

A safe-output type as a workflow configures it: a limit, a token, a target, and
the settings of the type.
-/

namespace FlowLock.SafeOutput

open Template

structure Output where
  kind : Kind
  /-- The templated limit on the number of items. -/
  max : Option String
  token : String
  target : Target
  settings : Table Setting
deriving Repr, DecidableEq, Inhabited

def parseField (es : Entries) (owner : String) (field : Field) : Outcome (String × Setting) := do
  .ok (field.name, ← field.kind.parse es owner field.key)

/-- The values of settings.  A size that is no number is refused before any other
setting is looked at. -/
def parseFields (es : Entries) (owner : String) (fields : List Field) :
    Outcome (Table Setting) := do
  let _ ← (fields.filter (·.kind.isSize)).mapM (parseField es owner)
  fields.mapM (parseField es owner)

namespace Output

def ofEntries (kind : Kind) (es : Entries) : Outcome Output := do
  let max ← limitField es kind.key "max"
  let token ← textField es kind.key "github-token" ""
  let target ← parseTarget es kind.key
  let settings ← parseFields es kind.key kind.spec.fields
  .ok { kind, max := some (max.getD (toString kind.spec.defaultMax)), token, target, settings }

/-- A report as its mapping configures it.  It has no target, and no limit unless
one is given. -/
def reportOfEntries (kind : Kind) (es : Entries) : Outcome Output := do
  let settings ← parseFields es kind.key kind.spec.fields
  let max ← limitField es kind.key "max"
  let token ← textField es kind.key "github-token" ""
  .ok { kind, max, token, target := {}, settings }

/-- The type as front matter configures it; null and true stand for no settings. -/
def parse (kind : Kind) (setting : Value) : Outcome Output :=
  let read := if kind.isReport then reportOfEntries kind else ofEntries kind
  let name := "safe-outputs." ++ kind.key
  match setting.opened with
  | .null => read []
  | .bool true => read []
  | .map es => read es
  | v =>
    if kind.isReport then .error (.mustBe name .mappingNullOrFalse none)
    else .error (.mustBe name .mapping (some v.kindName))

/-- A type is read as itself. -/
theorem kind_of_parse {kind : Kind} {setting : Value} {o : Output}
    (h : parse kind setting = .ok o) : o.kind = kind := by
  have hread : ∀ {es}, (if kind.isReport then reportOfEntries kind else ofEntries kind) es = .ok o →
      o.kind = kind := by
    intro es h
    split at h
    · obtain ⟨settings, -, h⟩ := Outcome.bind_eq_ok.mp h
      obtain ⟨max, -, h⟩ := Outcome.bind_eq_ok.mp h
      obtain ⟨token, -, h⟩ := Outcome.bind_eq_ok.mp h
      cases h
      rfl
    · obtain ⟨max, -, h⟩ := Outcome.bind_eq_ok.mp h
      obtain ⟨token, -, h⟩ := Outcome.bind_eq_ok.mp h
      obtain ⟨target, -, h⟩ := Outcome.bind_eq_ok.mp h
      obtain ⟨settings, -, h⟩ := Outcome.bind_eq_ok.mp h
      cases h
      rfl
  unfold parse at h
  dsimp only at h
  split at h
  · exact hread h
  · exact hread h
  · exact hread h
  · split at h <;> cases h

/-! ## Settings by name -/

def flag (o : Output) (name : String) : Bool :=
  match o.settings.get? name with
  | some (.flag b) => b
  | _ => false

def text (o : Output) (name : String) : String :=
  match o.settings.get? name with
  | some (.text s) => s
  | _ => ""

def texts (o : Output) (name : String) : List String :=
  match o.settings.get? name with
  | some (.texts xs) => xs
  | _ => []

/-- The values that the agent may choose from, where the type has such a setting. -/
def choices? (o : Output) : Option Choices :=
  match o.settings.get? "values" with
  | some (.choices c) => some c
  | _ => none

/-- The filters on items, where the type has such a setting. -/
def filters? (o : Output) : Option Filters :=
  match o.settings.get? "filters" with
  | some (.filters f) => some f
  | _ => none

def hasFooter (o : Output) : Bool := o.kind.spec.fields.any fun field => field.name == "footer"

/-! ## Limits and access -/

/-- The limit as a number; an expression counts as the default. -/
def maxCount (o : Output) : Outcome Int := intOr o.max o.kind.spec.defaultMax

/-- The grants of the access that the configured type takes.  Commenting needs
discussions unless they are left out, a pull request needs issues as a fallback,
and a report needs issues if it opens them. -/
def grants (o : Output) : List (Scope × Level) :=
  match o.kind with
  | .addComment | .hideComment =>
    if o.flag "discussions" then Kind.conversationAccess
    else [(.contents, .read), (.issues, .write)]
  | .createPullRequest =>
    if o.flag "fallback_as_issue" then
      [(.contents, .write), (.issues, .write), (.pullRequests, .write)]
    else [(.contents, .write), (.pullRequests, .write)]
  | .missingTool | .missingData =>
    if o.flag "create_issue" then [(.contents, .read), (.issues, .write)]
    else [(.contents, .read)]
  | kind => kind.spec.bundle

def permissions (o : Output) : Permissions := .ofGrants o.grants

/-! ## What the handler is told -/

def switchValue (s : String) : Value :=
  if isExpression s then .str s else .bool (s == "true")

def limitValue (s : String) : Outcome Value :=
  if isExpression s then .ok (.str s)
  else do .ok (.int (← intOr (some s) 0))

def textsEntry (name : String) (xs : List String) : Table Value :=
  if xs.isEmpty then [] else [(name, .strs xs)]

def textEntry (name text : String) : Table Value :=
  if text.isEmpty then [] else [(name, .str text)]

def settingEntries (name : String) : Setting → Table Value
  | .text s => [(name, .str s)]
  | .texts xs => [(name, .strs xs)]
  | .flag b => [(name, .bool b)]
  | .switch none => []
  | .switch (some s) => [(name, switchValue s)]
  | .number n => [(name, .int n)]
  | .filters f =>
    textsEntry "required_labels" f.requiredLabels ++
    textEntry "required_title_prefix" f.requiredTitleStart ++
    textEntry "required_category" f.requiredCategory
  | .choices c => textsEntry "allowed" c.allowed ++ textsEntry "blocked" c.blocked

/-- The entries for one setting of a type: none for a default.  The token for the
empty commit does not go to the handler. -/
def fieldEntries (settings : Table Setting) (field : Field) : Table Value :=
  match settings.get? field.name with
  | none => []
  | some setting =>
    if setting == field.kind.default || field == Kind.commitToken then []
    else settingEntries field.name setting

def maxEntries : Option String → Outcome (Table Value)
  | none => .ok []
  | some s => do .ok [("max", ← limitValue s)]

def handlerSettings (o : Output) : Outcome (Table Value) := do
  let max ← maxEntries o.max
  .ok (max ++
    textEntry "github-token" o.token ++
    textEntry "target" o.target.target ++
    textEntry "target-repo" o.target.repository ++
    textsEntry "allowed_repos" o.target.allowedRepositories ++
    o.kind.spec.fields.flatMap (fieldEntries o.settings))

/-! ## Environment variables -/

def targetVariable (o : Output) : Table String :=
  if o.target.target.isEmpty then []
  else [(o.kind.spec.variableStem ++ "_TARGET", o.target.target)]

def oneVariable (name value : String) : Table String :=
  if value.isEmpty then [] else [(name, value)]

def maxVariable (o : Output) : Outcome String :=
  match o.max with
  | some s => if isExpression s then .ok s else do .ok (toString (← o.maxCount))
  | none => do .ok (toString (← o.maxCount))

/-- The environment variables that the type contributes to the processing step. -/
def environment (o : Output) : Outcome (Table String) :=
  let stem := o.kind.spec.variableStem
  if stem.isEmpty then .ok []
  else match o.choices?, o.filters? with
    | some c, _ => do
      .ok ([(stem ++ "_ALLOWED", ",".intercalate c.allowed),
            (stem ++ "_BLOCKED", ",".intercalate c.blocked),
            (stem ++ "_MAX_COUNT", ← o.maxVariable)] ++ o.targetVariable)
    | none, some f =>
      .ok (o.targetVariable ++
        (if f.requiredLabels.isEmpty then []
         else [(stem ++ "_REQUIRED_LABELS", ",".intercalate f.requiredLabels)]) ++
        oneVariable (stem ++ "_REQUIRED_TITLE_PREFIX") f.requiredTitleStart ++
        oneVariable (stem ++ "_REQUIRED_CATEGORY") f.requiredCategory)
    | none, none => .ok []

end Output

end FlowLock.SafeOutput
