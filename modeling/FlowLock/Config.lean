import FlowLock.Error
import FlowLock.Table
import FlowLock.Value.Literal
import FlowLock.Yaml.Load

/-!
# Compiler configuration

The settings of a compile that do not come from the workflow: flags, trial
repository and pinned tool versions.  They are read from a YAML file of the user;
a file that cannot be used counts as no file.
-/

namespace FlowLock

open Text

structure Config where
  /-- Turn warnings about security into errors. -/
  strict : Bool := false
  trialMode : Bool := false
  trialRepository : String := ""
  /-- How workflows refer to the compiler's own actions; detected when not set. -/
  actionMode : Option String := none
  /-- The default version of each engine's command-line program. -/
  engineVersions : Table String :=
    [("copilot", "0.0.374"), ("claude", "2.0.76"), ("codex", "0.77.0"), ("gemini", "0.22.5")]
  firewallVersion : String := "v0.13.0"
  compilerVersion : String := "dev"
  skipValidation : Bool := false
deriving Repr, DecidableEq, Inhabited

inductive ConfigFault where
  | wrongKind (place : List String)
  | trialRepository (value : String)
deriving Repr, DecidableEq

def ConfigFault.place : ConfigFault → List String
  | .wrongKind place => place
  | .trialRepository _ => ["trial_logical_repo"]

def ConfigFault.message? : ConfigFault → Option String
  | .wrongKind _ => none
  | .trialRepository value =>
    some s!"Value error, trial repository must be in 'owner/repo' format, got '{value}'"

namespace Config

def text? : Value → Option String
  | .str s => some s
  | .bytes bs => (Utf8.decode bs).toOption.map String.ofList
  | _ => none

def wordBool? (word : String) : Option Bool :=
  let word := lower word
  if ["1", "t", "y", "on", "yes", "true"].contains word then some true
  else if ["0", "f", "n", "no", "off", "false"].contains word then some false
  else none

def numberBool? (n : Int) : Option Bool :=
  if n == 1 then some true else if n == 0 then some false else none

def bool? : Value → Option Bool
  | .bool b => some b
  | .int n => numberBool? n
  | .float x => x.toInt? >>= numberBool?
  | v => text? v >>= wordBool?

def setting {α : Type} (settings : Table Value) (name : String) (default : α)
    (read : Value → Except ConfigFault α) : Except ConfigFault α :=
  match settings.get? name with
  | none => .ok default
  | some v => read v

def plainSetting {α : Type} (settings : Table Value) (name : String) (default : α)
    (read? : Value → Option α) : Except ConfigFault α :=
  setting settings name default fun v =>
    match read? v with
    | some a => .ok a
    | none => .error (.wrongKind [name])

/-- Whether a character may stand in the name of an owner or a repository. -/
def isSlugChar (c : Char) : Bool :=
  isAsciiLetter c || isAsciiDigit c || c == '-' || c == '_' || c == '.'

def isSlug (s : String) : Bool :=
  match splitOn s '/' with
  | [owner, name] =>
    !owner.isEmpty && !name.isEmpty && owner.toList.all isSlugChar && name.toList.all isSlugChar
  | _ => false

def readTrialRepository (v : Value) : Except ConfigFault String :=
  match text? v with
  | none => .error (.wrongKind ["trial_logical_repo"])
  | some s => if s.isEmpty || isSlug s then .ok s else .error (.trialRepository s)

def readVersion (entry : Value × Value) : Except ConfigFault (String × String) :=
  match text? entry.1, text? entry.2 with
  | some name, some version => .ok (name, version)
  | none, _ => .error (.wrongKind ["engine_versions", entry.1.plain, "[key]"])
  | _, none => .error (.wrongKind ["engine_versions", entry.1.plain])

/-- Engine versions; engines that are not named keep their default. -/
def readVersions (v : Value) : Except ConfigFault (Table String) :=
  match v.opened with
  | .map entries => do
    let versions ← entries.mapM readVersion
    .ok (Table.update ({} : Config).engineVersions versions)
  | _ => .error (.wrongKind ["engine_versions"])

def actionMode? : Value → Option (Option String)
  | .null => some none
  | v => (text? v).map some

/-- The configuration with the given settings.  The first setting at fault, in the
order of the fields, is reported. -/
def ofSettings (settings : Table Value) : Except ConfigFault Config := do
  let base : Config := {}
  let strict ← plainSetting settings "strict" base.strict bool?
  let trialMode ← plainSetting settings "trial_mode" base.trialMode bool?
  let trialRepository ←
    setting settings "trial_logical_repo" base.trialRepository readTrialRepository
  let actionMode ← plainSetting settings "action_mode" base.actionMode actionMode?
  let engineVersions ← setting settings "engine_versions" base.engineVersions readVersions
  let firewallVersion ← plainSetting settings "firewall_version" base.firewallVersion text?
  let compilerVersion ← plainSetting settings "cli_version" base.compilerVersion text?
  let skipValidation ← plainSetting settings "skip_validation" base.skipValidation bool?
  .ok { strict, trialMode, trialRepository, actionMode, engineVersions, firewallVersion,
        compilerVersion, skipValidation }

/-- The configuration in the text of a file; `none` is no readable file.  Hyphens in
names count as underscores. -/
def ofFile (content : Option String) : Outcome Config :=
  match content with
  | none => .ok {}
  | some text =>
    match Yaml.load Yaml.Schema.wide text with
    | .error .fatal => .error .fatal
    | .error _ => .ok {}
    | .ok v =>
      match v.entries? with
      | some entries =>
        let settings := Table.ofWritten (entries.map fun e =>
          (replaceChar e.1.plain '-' '_', e.2))
        match ofSettings settings with
        | .ok config => .ok config
        | .error _ => .ok {}
      | none => .ok {}

def engineVersion (config : Config) (engine : String) : String :=
  (config.engineVersions.get? engine).getD ""

/-- The configuration that was read first, if any was. -/
structure Cache where
  config : Option Config := none
deriving Repr, DecidableEq

/-- The kept configuration, or the one in the file, which is then kept. -/
def Cache.get (cache : Cache) (content : Option String) : Outcome (Config × Cache) :=
  match cache.config with
  | some config => .ok (config, cache)
  | none => do
    let config ← ofFile content
    .ok (config, ⟨some config⟩)

def isDebug (value : String) : Bool :=
  !(["", "0", "false", "no", "off"].contains (lower (trim value)))

end Config

end FlowLock
