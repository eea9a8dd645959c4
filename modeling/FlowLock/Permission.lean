import FlowLock.Error
import FlowLock.Value.Literal

/-!
# Permissions

The access that a job's token has: a level for each of some scopes.  Levels are
ordered, and two sets of permissions join scope by scope at the higher level, so
joining what every contributor needs gives the least access that covers them all.

A set of permissions is kept as its grants in the order of the scopes' names, so
equal permissions are equal as data.
-/

namespace FlowLock

inductive Level where
  | none
  | read
  | write
  | admin
deriving Repr, DecidableEq, Inhabited

namespace Level

def all : List Level := [.none, .read, .write, .admin]

def rank : Level → Nat
  | .none => 0
  | .read => 1
  | .write => 2
  | .admin => 3

def name : Level → String
  | .none => "none"
  | .read => "read"
  | .write => "write"
  | .admin => "admin"

def ofName? (name : String) : Option Level := all.find? fun l => l.name == name

def max (a b : Level) : Level := if b.rank > a.rank then b else a

def min (a b : Level) : Level := if a.rank ≤ b.rank then a else b

end Level

/-- What a token gives access to. -/
inductive Scope where
  | actions
  | attestations
  | checks
  | contents
  | deployments
  | discussions
  | idToken
  | issues
  | metadata
  | models
  | organizationProjects
  | packages
  | pages
  | pullRequests
  | repositoryProjects
  | securityEvents
  | statuses
deriving Repr, DecidableEq, Inhabited

namespace Scope

/-- The scopes in the order of their names. -/
def all : List Scope :=
  [.actions, .attestations, .checks, .contents, .deployments, .discussions, .idToken, .issues,
   .metadata, .models, .organizationProjects, .packages, .pages, .pullRequests,
   .repositoryProjects, .securityEvents, .statuses]

def name : Scope → String
  | .actions => "actions"
  | .attestations => "attestations"
  | .checks => "checks"
  | .contents => "contents"
  | .deployments => "deployments"
  | .discussions => "discussions"
  | .idToken => "id-token"
  | .issues => "issues"
  | .metadata => "metadata"
  | .models => "models"
  | .organizationProjects => "organization-projects"
  | .packages => "packages"
  | .pages => "pages"
  | .pullRequests => "pull-requests"
  | .repositoryProjects => "repository-projects"
  | .securityEvents => "security-events"
  | .statuses => "statuses"

def ofName? (name : String) : Option Scope := all.find? fun s => s.name == name

def shorthand : List Scope :=
  all.filter fun s => s != .idToken && s != .organizationProjects

end Scope

/-- The access of a token: its grants in the order of the scopes. -/
structure Permissions where
  grants : List (Scope × Level)
deriving Repr, DecidableEq, Inhabited

namespace Permissions

def ofFun (level? : Scope → Option Level) : Permissions :=
  ⟨Scope.all.filterMap fun s => (level? s).map fun l => (s, l)⟩

def empty : Permissions := ⟨[]⟩

def get (p : Permissions) (scope : Scope) : Option Level :=
  (p.grants.find? fun g => g.1 == scope).map (·.2)

def isEmpty (p : Permissions) : Bool := p.grants.isEmpty

def set (p : Permissions) (scope : Scope) (level : Level) : Permissions :=
  ofFun fun s => if s == scope then some level else p.get s

def remove (p : Permissions) (scope : Scope) : Permissions :=
  ofFun fun s => if s == scope then none else p.get s

def higher : Option Level → Option Level → Option Level
  | some a, some b => some (a.max b)
  | some a, none => some a
  | none, b => b

def lower : Option Level → Option Level → Option Level
  | some a, some b => some (a.min b)
  | _, _ => none

def join (p q : Permissions) : Permissions :=
  ofFun fun s => higher (p.get s) (q.get s)

def meet (p q : Permissions) : Permissions :=
  ofFun fun s => lower (p.get s) (q.get s)

def joinAll (ps : List Permissions) : Permissions := ps.foldl join empty

/-- Permissions from grants; of two for one scope the last counts. -/
def ofGrants (grants : List (Scope × Level)) : Permissions :=
  grants.foldl (fun p g => p.set g.1 g.2) empty

def entries (p : Permissions) : Entries :=
  p.grants.map fun g => (.str g.1.name, .str g.2.name)

def toValue (p : Permissions) : Value := .map p.entries

def literal (p : Permissions) : String := "Permissions(" ++ p.toValue.literal ++ ")"

/-! ## Reading -/

def readScope (name : String) : Outcome Scope :=
  match Scope.ofName? name with
  | some scope => .ok scope
  | none => .error (.schema "permissions" (.unknownScope name (Scope.all.map (·.name))))

/-- The level that a word stands for, or a refusal. -/
def readLevel (name : String) : Outcome Level :=
  match Level.ofName? name with
  | some level => .ok level
  | none => .error (.schema "permissions" (.unknownLevel name (Level.all.map (·.name))))

/-- The permissions with a scope at a level, both given by name; the level is looked
at first. -/
def setNamed (p : Permissions) (scope level : String) : Outcome Permissions := do
  let level ← readLevel level
  let scope ← readScope scope
  .ok (p.set scope level)

def addEntry (p : Permissions) (entry : Value × Value) : Outcome Permissions :=
  match entry.2 with
  | .str level => p.setNamed entry.1.plain level
  | v =>
    let place := "permissions." ++ entry.1.plain
    .error (.mustBe place .level (some v.kindName))

/-- Permissions from front matter: a mapping, a shorthand, or null. -/
def parse (v : Value) : Outcome Permissions :=
  match v.opened with
  | .null => .ok empty
  | .str "read-all" => .ok (ofFun fun s => if Scope.shorthand.contains s then some .read else none)
  | .str "write-all" => .ok (ofFun fun s => if Scope.shorthand.contains s then some .write else none)
  | .str s => .error (.mustBe "permissions" .mappingOrShorthand (some s!"'{s}'"))
  | .map es => es.foldlM addEntry empty
  | v => .error (.mustBe "permissions" .mapping (some v.kindName))

/-! ## The identity token -/

def identityActions : List String :=
  ["aws-actions/configure-aws-credentials", "azure/login", "google-github-actions/auth",
   "hashicorp/vault-action", "cyberark/conjur-action"]

def actionName (reference : String) : String :=
  Text.trim (match Text.splitOnce reference '@' with
    | some (name, _) => name
    | none => reference)

def stepNeedsIdToken (step : Value) : Bool :=
  match step.entries? with
  | some es =>
    match Entries.getD es "uses" with
    | .str reference => identityActions.contains (actionName reference)
    | _ => false
  | none => false

def needsIdToken (steps : List Value) : Bool := steps.any stepNeedsIdToken

/-- The permissions of a job with the given steps: an explicit `none` takes the
identity token away, an explicit `write` or a step that needs it grants it. -/
def withIdToken (p : Permissions) (steps : List Value) (setting : Option String) : Permissions :=
  if setting == some "none" then p.remove .idToken
  else if setting == some "write" || needsIdToken steps then p.set .idToken .write
  else p

end Permissions

end FlowLock
