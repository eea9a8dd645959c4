import FlowLock.Error
import FlowLock.Table
import FlowLock.Value.Literal

/-!
# Actions

Compiled workflows use published actions pinned to a commit, with the release
named after it, and the compiler's own setup action in one of three ways.
-/

namespace FlowLock

/-- A released action and its commit. -/
structure ActionPin where
  repo : String
  version : String
  commit : String
deriving Repr, DecidableEq

namespace ActionPin

def reference (pin : ActionPin) : String :=
  s!"{pin.repo}@{pin.commit} # {pin.version}"

/-- The actions that compiled workflows use. -/
def known : List ActionPin :=
  [⟨"actions/checkout", "v5.0.0", "08c6903cd8c0fde910a37f88322edcfb5dd907a8"⟩,
   ⟨"actions/cache", "v4.2.4", "0400d5f644dc74513175e3cd8d07132dd4860809"⟩,
   ⟨"actions/cache/restore", "v4.2.4", "0400d5f644dc74513175e3cd8d07132dd4860809"⟩,
   ⟨"actions/upload-artifact", "v4.6.2", "ea165f8d65b6e75b540449e92b4886f43607fa02"⟩,
   ⟨"actions/download-artifact", "v5.0.0", "634f93cb2916e3fdff6788551b99b062d0335ce0"⟩,
   ⟨"actions/setup-node", "v4.4.0", "49933ea5288caeca8642d1e84afbd3f7d6820020"⟩,
   ⟨"actions/github-script", "v8.0.0", "ed597411d8f924073f98dfc5c65a23a2325f34cd"⟩,
   ⟨"actions/create-github-app-token", "v2.1.4", "67018539274d69449ef7c02e8e71183d1719ab42"⟩]

end ActionPin

/-- From the name of an action to the reference that steps use. -/
abbrev PinResolver := String → Outcome String

def resolvePin : PinResolver := fun repo =>
  match ActionPin.known.find? fun pin => pin.repo == repo with
  | some pin => .ok pin.reference
  | none =>
    .error (.schema "uses" (.unpinnedAction repo (Text.sorted (ActionPin.known.map (·.repo)))))

/-- How compiled workflows refer to the compiler's own setup action. -/
inductive ActionMode where
  /-- By a path in the same repository. -/
  | dev
  | release
  /-- Not at all: its script is run from a checkout. -/
  | script
deriving Repr, DecidableEq, Inhabited

namespace ActionMode

def name : ActionMode → String
  | .dev => "dev"
  | .release => "release"
  | .script => "script"

def ofName? (name : String) : Option ActionMode :=
  [dev, .release, .script].find? fun m => m.name == name

def setupRepository : String := "github/gh-aw"

def explicit (value : Value) (source : String) : Outcome ActionMode :=
  match value.str?.bind ofName? with
  | some mode => .ok mode
  | none => .error (.schema source (.invalidActionMode value.plain source))

def isReleaseRun (environment : Table String) : Bool :=
  let ref := (environment.get? "GITHUB_REF").getD ""
  let event := (environment.get? "GITHUB_EVENT_NAME").getD ""
  Text.startsWith ref "refs/tags/" || Text.startsWith ref "refs/heads/release" ||
    event == "release"

/-- The mode of a compile: a valid environment variable comes first, then the
configured mode, then the workflow's feature, then what the environment tells. -/
def detect (configured : Value) (features : Entries) (environment : Table String) :
    Outcome ActionMode :=
  match ofName? ((environment.get? "GH_AW_ACTION_MODE").getD "") with
  | some mode => .ok mode
  | none =>
    if configured.truthy then explicit configured "action-mode"
    else match Entries.getD features "action-mode" with
      | .null => .ok (if isReleaseRun environment then .release else .dev)
      | value => explicit value "features.action-mode"

end ActionMode

end FlowLock
