import FlowLock.Template

/-!
# GitHub Apps

A job can mint its token at run time from the credentials of an installed app.
-/

namespace FlowLock

open Entries

structure GitHubApp where
  appId : String
  privateKey : String
  /-- The owner of the installation; the owner of the repository when empty. -/
  owner : String := ""
  repositories : List String := []
deriving Repr, DecidableEq, Inhabited

namespace GitHubApp

/-- The identifier of an app: a text or a number. -/
def appId? : Value → Option String
  | .str s => some s
  | .int n => some (toString n)
  | _ => none

def ofEntries (es : Entries) (place : String) : Outcome GitHubApp :=
  let key := getD es "private-key"
  match appId? (getD es "app-id") with
  | none => .error (.schema place (.incompleteApp place))
  | some appId =>
    if !key.truthy then .error (.schema place (.incompleteApp place))
    else match key with
      | .str privateKey =>
        .ok { appId, privateKey
              owner := ((get? es "owner").bind Value.str?).getD ""
              repositories := ((getD es "repositories").strings?).getD [] }
      | _ => .error (.schema place (.mustBe (place ++ ".private-key") .string none))

def parse (setting : Value) (place : String) : Outcome (Option GitHubApp) :=
  match setting.opened with
  | .null => .ok none
  | .map es => do .ok (some (← ofEntries es place))
  | _ => .error (.mustBe place .mapping none)

end GitHubApp

end FlowLock
