import FlowLock.Template
import FlowLock.Text.CaseMap

/-!
# Settings of safe outputs

Readers for the settings of a safe-output type.  Each names the setting in full
when it refuses a value, and treats null like an absent setting.
-/

namespace FlowLock.SafeOutput

open Text Entries

def place (kind key : String) : String := s!"safe-outputs.{kind}.{key}"

def textField (es : Entries) (kind key default : String) : Outcome String :=
  match getD es key with
  | .null => .ok default
  | .str s => .ok s
  | v => .error (.mustBe (place kind key) .string (some v.kindName))

def textsField (es : Entries) (kind key : String) : Outcome (List String) :=
  match getD es key with
  | .null => .ok []
  | v =>
    match v.strings? with
    | some xs => .ok xs
    | none => .error (.mustBe (place kind key) .strings none)

def flagField (es : Entries) (kind key : String) : Outcome (Option Bool) :=
  match getD es key with
  | .null => .ok none
  | .bool b => .ok (some b)
  | v => .error (.mustBe (place kind key) .boolean (some v.kindName))

def isSwitch (s : String) : Bool := s == "true" || s == "false"

/-- A templated setting whose literals are those that `isLiteral` accepts. -/
def templatedField (es : Entries) (kind key : String) (expected : Expectation)
    (isLiteral : String → Bool) : Outcome (Option String) :=
  match getD es key with
  | .null => .ok none
  | v =>
    let refusal := Error.mustBe (place kind key) (.templated expected) (some v.literal)
    v.template >>= fun
    | some s =>
      if Template.isExpression s || isLiteral s then .ok (some s) else .error refusal
    | none => .error refusal

def limitField (es : Entries) (kind key : String) : Outcome (Option String) :=
  templatedField es kind key .integer Template.isNumeral

def switchField (es : Entries) (kind key : String) : Outcome (Option String) :=
  templatedField es kind key .boolean isSwitch

def choiceField (es : Entries) (kind key : String) (words : List String) : Outcome String := do
  let value ← textField es kind key ""
  if value.isEmpty || words.contains value then .ok value
  else .error (.mustBe (place kind key) (.oneOf words) (some s!"'{value}'"))

def allowed (es : Entries) (key : String) : Bool :=
  match get? es key with
  | some v => !v.isFalse
  | none => false

def kilobytesField (es : Entries) (kind key : String) (default : Int) : Outcome Int :=
  match get? es key with
  | none => .ok default
  | some (.int n) => .ok n
  | some v => .error (.mustBe (place kind key) .kilobytes (some v.literal))

/-! ## Groups -/

structure Target where
  /-- The triggering item when empty, any item for a star, or a number. -/
  target : String := ""
  repository : String := ""
  allowedRepositories : List String := []
deriving Repr, DecidableEq, Inhabited

def targetItem (es : Entries) (kind : String) : Outcome String :=
  match getD es "target" with
  | .null => .ok ""
  | .int n => .ok (toString n)
  | .str s => .ok s
  | _ => .error (.mustBe (place kind "target") .stringOrIssueNumber none)

def parseTarget (es : Entries) (kind : String) : Outcome Target := do
  let target ← targetItem es kind
  let repository ← textField es kind "target-repo" ""
  let allowedRepositories ← textsField es kind "allowed-repos"
  .ok { target := trim target, repository := trim repository, allowedRepositories }

/-- What an item has to look like to be acted on. -/
structure Filters where
  requiredLabels : List String := []
  requiredTitleStart : String := ""
  requiredCategory : String := ""
deriving Repr, DecidableEq, Inhabited

def parseFilters (es : Entries) (kind : String) (discussions : Bool) : Outcome Filters := do
  let requiredLabels ← textsField es kind "required-labels"
  let requiredTitleStart ← textField es kind "required-title-prefix" ""
  let requiredCategory ←
    if discussions then textField es kind "required-category" "" else .ok ""
  .ok { requiredLabels, requiredTitleStart, requiredCategory }

structure Choices where
  allowed : List String := []
  blocked : List String := []
deriving Repr, DecidableEq, Inhabited

def parseChoices (es : Entries) (kind allowedKey : String) : Outcome Choices := do
  let allowed ← textsField es kind allowedKey
  let blocked ← textsField es kind "blocked"
  .ok { allowed, blocked }

/-! ## Expiry -/

def unitHours? : Char → Option Int
  | 'h' => some 1
  | 'd' => some 24
  | 'w' => some (24 * 7)
  | 'm' => some (24 * 30)
  | 'y' => some (24 * 365)
  | _ => none

/-- The digits of a duration and the hours of its unit: digits, blanks, and one
letter. -/
def duration? (cs : List Char) : Option (List Char × Int) :=
  let digits := cs.takeWhile isDecimal
  match (cs.dropWhile isDecimal).dropWhile isBlank with
  | [unit] => if digits.isEmpty then none else (unitHours? unit).map fun h => (digits, h)
  | _ => none

/-- An expiry in hours: a number is days, a text is a duration, and null or false is
none. -/
def parseExpiry (v : Value) (kind : String) : Outcome Int :=
  let refusal := Error.mustBe (place kind "expires") .duration (some v.literal)
  match v with
  | .null => .ok 0
  | .bool false => .ok 0
  | .int n =>
    if n < 0 then
      .error (.schema (place kind "expires") (.negativeExpiry (place kind "expires") n))
    else .ok (n * 24)
  | .str s =>
    match duration? (lower (trim s)).toList with
    | some (digits, hours) => do
      let count ← orFatal (readInt? 10 (String.ofList digits))
      .ok (count * hours)
    | none => .error refusal
  | _ => .error refusal

end FlowLock.SafeOutput
