import FlowLock.Error
import FlowLock.Value.Json

/-!
# Settings that an expression may stand for

Many settings take either a literal (a number or a boolean) or a workflow
expression that is evaluated at run time.  Such a setting is kept as text: the
literal in its usual spelling, or the expression as written.
-/

namespace FlowLock

open Text

namespace Template

def opening : String := "$\x7b\x7b"

def closing : String := "\x7d\x7d"

/-- Whether a text, blanks around it apart, is one expression from its opening to
its closing mark. -/
def isExpression (s : String) : Bool :=
  let inner := trim s
  startsWith inner opening && endsWith inner closing && 5 ≤ inner.length

/-- Whether a text consists of minus signs and then digits. -/
def isNumeral (s : String) : Bool :=
  isDigits (trimStartWhere (· == '-') s)

def ofBool (b : Bool) : String := if b then "true" else "false"

/-- The number that a setting stands for: `none` and expressions give the default.
A numeral with several signs, or with digits that have no place value, stands for
no number. -/
def intOr (setting : Option String) (default : Int) : Outcome Int :=
  match setting with
  | none => .ok default
  | some s =>
    let inner := trim s
    if isNumeral inner then orFatal (readInt? 10 inner) else .ok default

end Template

namespace Value

/-- The text of a setting that is a boolean, a whole number, a numeral or an
expression.  Too long a number has none, and that is fatal. -/
def template : Value → Outcome (Option String)
  | .bool b => .ok (some (Template.ofBool b))
  | .int n => do .ok (some (← orFatal (Json.intText? n)))
  | .float x => .ok (x.toInt?.map toString)
  | .str s =>
    let inner := trim s
    if Template.isExpression inner || Template.isNumeral inner || inner == "true" ||
        inner == "false" then
      .ok (some inner)
    else .ok none
  | _ => .ok none

/-- A setting that is one text or a list of texts, as a list; items that are no
texts are left out. -/
def strings? (v : Value) : Option (List String) :=
  match v.opened with
  | .str s => some [s]
  | .list items => some (items.filterMap str?)
  | _ => none

end Value

end FlowLock
