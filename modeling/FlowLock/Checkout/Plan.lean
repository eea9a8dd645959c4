import FlowLock.Action
import FlowLock.Checkout.Request

/-!
# Checkout plans

Requests for the same repository at the same path become one checkout.  The
deeper history wins, the first reference, token and submodule setting that are
given win, flags add up, and sparse patterns are united.
-/

namespace FlowLock.Checkout

open Text

/-- The deeper of two depths: all of the history is deepest, and a depth that is
not given gives way. -/
def deeper : Option Int → Option Int → Option Int
  | none, b => b
  | some a, none => some a
  | some a, some b => if a == 0 || b == 0 then some 0 else some (max a b)

/-- The patterns of a list followed by those of a text, trimmed, without empty ones
and repetitions. -/
def mergePatterns (patterns : List String) (more : String) : List String :=
  distinct (((patterns ++ lines more).map trim).filter fun p => !p.isEmpty)

/-- A checkout with its requests merged. -/
structure Target where
  repository : String
  path : String
  ref : String := ""
  token : String := ""
  fetchDepth : Option Int := none
  patterns : List String := []
  submodules : String := ""
  lfs : Bool := false
  current : Bool := false
deriving Repr, DecidableEq, Inhabited

namespace Target

def key (t : Target) : String × String := (t.repository, t.path)

/-- Whether this is the workflow's own repository at the root of the workspace. -/
def isDefault (t : Target) : Bool := t.repository.isEmpty && t.path.isEmpty

def ofRequest (r : Request) : Target :=
  { repository := r.repository
    path := normalPath r.path
    ref := r.ref
    token := r.token
    fetchDepth := r.fetchDepth
    patterns := if r.sparse.isEmpty then [] else mergePatterns [] r.sparse
    submodules := r.submodules
    lfs := r.lfs
    current := r.current }

def orElse (a b : String) : String := if a.isEmpty then b else a

def merge (t : Target) (r : Request) : Target :=
  { t with
    fetchDepth := deeper t.fetchDepth r.fetchDepth
    ref := orElse t.ref r.ref
    token := orElse t.token r.token
    submodules := orElse t.submodules r.submodules
    patterns := if r.sparse.isEmpty then t.patterns else mergePatterns t.patterns r.sparse
    lfs := t.lfs || r.lfs
    current := t.current || r.current }

def toRequest (t : Target) : Request :=
  { repository := t.repository
    ref := t.ref
    path := t.path
    token := t.token
    fetchDepth := t.fetchDepth
    sparse := unlines t.patterns
    submodules := t.submodules
    lfs := t.lfs
    current := t.current }

def label (t : Target) : String :=
  if !t.repository.isEmpty && !t.path.isEmpty then s!"{t.repository} into {t.path}"
  else orElse t.repository (orElse t.path "repository")

def textInput (key value : String) : List (String × Value) :=
  if value.isEmpty then [] else [(key, .str value)]

def howInputs (t : Target) : List (String × Value) :=
  textInput "ref" t.ref ++ textInput "token" t.token ++
  (match t.fetchDepth with
    | some depth => [("fetch-depth", .int depth)]
    | none => []) ++
  (if t.patterns.isEmpty then []
    else [("sparse-checkout", .str (unlines t.patterns ++ "\n"))]) ++
  textInput "submodules" t.submodules ++
  (if t.lfs then [("lfs", .bool true)] else [])

end Target

/-- Targets in the order of their first request, with an index of their keys. -/
structure Plan where
  targets : List Target := []
  /-- Where the target with a key stands. -/
  index : List ((String × String) × Nat) := []
deriving Repr, DecidableEq, Inhabited

namespace Plan

/-- The plan with one more request, which goes to the target with its key or becomes
a new one at the end. -/
def add (plan : Plan) (r : Request) : Plan :=
  match plan.index.lookup r.key with
  | some place => { plan with targets := plan.targets.modify place fun t => t.merge r }
  | none =>
    { targets := plan.targets ++ [.ofRequest r]
      index := plan.index ++ [(r.key, plan.targets.length)] }

def ofRequests (requests : List Request) : Plan := requests.foldl add {}

/-- The target at the root of the workspace, if some request asks for it. -/
def defaultTarget? (plan : Plan) : Option Target :=
  (plan.index.lookup ("", "")).bind fun place => plan.targets[place]?

def currentRepository (plan : Plan) : String :=
  match plan.targets.find? (·.current) with
  | some t => t.repository
  | none => ""

def trialToken : String :=
  "$\x7b\x7b secrets.GH_AW_GITHUB_TOKEN || secrets.GITHUB_TOKEN \x7d\x7d"

def step (reference name : String) (inputs : List (String × Value)) : Value :=
  .obj [("name", .str name), ("uses", .str reference),
    ("with", .obj (("persist-credentials", .bool false) :: inputs))]

/-- The settings of the checkout at the root of the workspace; in trial mode the
trial repository and its token replace those of the workflow. -/
def defaultInputs (plan : Plan) (trial : Option String) : List (String × Value) :=
  match trial with
  | some repository => Target.textInput "repository" repository ++ [("token", .str trialToken)]
  | none =>
    match plan.defaultTarget? with
    | some t => t.howInputs
    | none => []

def defaultStep (plan : Plan) (pin : PinResolver) (trial : Option String) : Outcome Value := do
  let reference ← pin "actions/checkout"
  .ok (step reference "Checkout repository" (plan.defaultInputs trial))

def additionalInputs (t : Target) : List (String × Value) :=
  Target.textInput "repository" t.repository ++ Target.textInput "path" t.path ++ t.howInputs

def additionalSteps (plan : Plan) (pin : PinResolver) : Outcome (List Value) :=
  (plan.targets.filter fun t => !t.isDefault).mapM fun t => do
    let reference ← pin "actions/checkout"
    .ok (step reference ("Checkout " ++ t.label) (additionalInputs t))

end Plan

end FlowLock.Checkout
