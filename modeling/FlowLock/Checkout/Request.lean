import FlowLock.Template
import FlowLock.Text.Order

/-!
# Checkout requests

A workflow asks for repositories to be checked out.  Each request names a
repository and a path in the workspace, and says how much of the history and of
the tree is wanted.
-/

namespace FlowLock.Checkout

open Text Entries

structure Request where
  /-- The repository; the workflow's own when empty. -/
  repository : String := ""
  ref : String := ""
  /-- Where in the workspace; its root when empty. -/
  path : String := ""
  token : String := ""
  /-- How many commits to fetch; zero is all of them. -/
  fetchDepth : Option Int := none
  /-- Patterns of the files wanted, one in a line. -/
  sparse : String := ""
  submodules : String := ""
  lfs : Bool := false
  /-- Whether this is the repository that the agent works on. -/
  current : Bool := false
deriving Repr, DecidableEq, Inhabited

def fieldName (key : String) : String := "checkout." ++ key

def textSetting (item : Entries) (key : String) : Outcome String :=
  match getD item key with
  | .null => .ok ""
  | .str s => .ok s
  | _ => .error (.mustBe (fieldName key) .string none)

def flagSetting (item : Entries) (key : String) : Outcome Bool :=
  match get? item key with
  | none => .ok false
  | some (.bool b) => .ok b
  | some _ => .error (.mustBe (fieldName key) .boolean none)

/-- A number of commits. -/
def depthSetting : Value → Outcome (Option Int)
  | .null => .ok none
  | .int n => .ok (some n)
  | .float x =>
    match x.toInt? with
    | some n => .ok (some n)
    | none => .error (.mustBe (fieldName "fetch-depth") .integer none)
  | _ => .error (.mustBe (fieldName "fetch-depth") .integer none)

def submodulesSetting : Value → Outcome String
  | .null => .ok ""
  | .bool b => .ok (Template.ofBool b)
  | .str s => .ok s
  | _ => .error (.mustBe (fieldName "submodules") .stringOrBoolean none)

/-- The root of the workspace has two spellings, the empty one and the dot. -/
def normalPath (path : String) : String := if path == "." then "" else path

/-- What tells the targets of requests apart: the repository and where it goes. -/
def Request.key (r : Request) : String × String := (r.repository, normalPath r.path)

def Request.parse (item : Entries) : Outcome Request := do
  let fetchDepth ← depthSetting (getD item "fetch-depth")
  let submodules ← submodulesSetting (getD item "submodules")
  let lfs ← flagSetting item "lfs"
  let current ← flagSetting item "current"
  let path ← textSetting item "path"
  let repository ← textSetting item "repository"
  let ref ← textSetting item "ref"
  let token ← textSetting item "github-token"
  let sparse ← textSetting item "sparse-checkout"
  .ok { repository, ref, path := normalPath path, token, fetchDepth, sparse, submodules, lfs,
        current }

/-- The request of an item of a list, whose refusal names the item. -/
def parseItem (index : Nat) (item : Value) : Outcome Request :=
  match item with
  | .map es =>
    match Request.parse es with
    | .error (.schema field fault) => .error (.schema field (.checkoutItem index fault))
    | outcome => outcome
  | v => .error (.schema "checkout" (.checkoutNoObject index v.kindName))

def parseItems : Nat → List Value → Outcome (List Request)
  | _, [] => .ok []
  | index, item :: items => do
    let request ← parseItem index item
    let requests ← parseItems (index + 1) items
    .ok (request :: requests)

def currentPlaces (requests : List Request) : List (String × String) :=
  ((requests.filter (·.current)).map fun r => (trim r.repository, trim r.path)).foldl
    (fun seen place => if seen.contains place then seen else seen ++ [place]) []

def parseShape : Value → Outcome (List Request)
  | .null => .ok []
  | .map es => do .ok [← Request.parse es]
  | .list items => parseItems 0 items
  | v => .error (.mustBe "checkout" .objectOrObjects (some v.kindName))

def parse (setting : Value) : Outcome (List Request) := do
  let requests ← parseShape setting
  let places := currentPlaces requests
  if places.length > 1 then .error (.currentCheckouts places.length) else .ok requests

/-! ## The overview in the prompt -/

def relativePath (path : String) : String :=
  let path := if startsWith path "./" then dropChars path 2 else path
  normalPath path

def Request.overviewLine (r : Request) : String :=
  let relative := relativePath r.path
  let location := "$GITHUB_WORKSPACE" ++ (if relative.isEmpty then "" else "/" ++ relative)
  let repository :=
    if r.repository.isEmpty then "$\x7b\x7b github.repository \x7d\x7d" else r.repository
  s!"  - `{location}` → `{repository}`" ++
    (if relative.isEmpty then " (cwd)" else "") ++
    (if r.current then
      " (**current** - this is the repository you are working on; use this as " ++
      "the target for all GitHub operations unless otherwise specified)"
    else "")

def overview (requests : List Request) : String :=
  if requests.isEmpty then ""
  else
    "- **checkouts**: The following repositories have been checked out " ++
    "and are available in the workspace:\n" ++
    unlines (requests.map Request.overviewLine) ++ "\n"

end FlowLock.Checkout
