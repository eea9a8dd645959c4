import FlowLock.Table
import FlowLock.Template

/-!
# Reading settings

Readers that the sections of front matter share.  Each takes the full name of the
setting and refuses a value of the wrong kind under that name.
-/

namespace FlowLock.Setting

def object (v : Value) (name : String) : Outcome Entries :=
  match v.opened with
  | .map es => .ok es
  | v => .error (.mustBe name .object (some v.kindName))

def text (v : Value) (name default : String) : Outcome String :=
  match v with
  | .null => .ok default
  | .str s => .ok s
  | .int n => .ok (toString n)
  | .float x => .ok (Value.plain (.float x))
  | _ => .error (.mustBe name .string none)

/-- A setting that is a text or a list of texts; null is the empty list. -/
def texts (v : Value) (name : String) : Outcome (List String) :=
  match v with
  | .null => .ok []
  | v =>
    match v.strings? with
    | some xs => .ok xs
    | none => .error (.mustBe name .strings none)

def flag (v : Option Value) (name : String) (default : Bool) : Outcome Bool :=
  match v with
  | none => .ok default
  | some (.bool b) => .ok b
  | some _ => .error (.mustBe name .boolean none)

def variableText : Value → String
  | .bool b => Template.ofBool b
  | .null => ""
  | v => v.plain

/-- A setting that is a mapping of environment variables; null is the empty one. -/
def environment (v : Value) (name : String) : Outcome (Table String) :=
  match v with
  | .null => .ok []
  | v => do
    let es ← object v name
    .ok (.ofWritten (es.map fun e => (e.1.plain, variableText e.2)))

end FlowLock.Setting
