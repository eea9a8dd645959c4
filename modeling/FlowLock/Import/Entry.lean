import FlowLock.Error
import FlowLock.Path
import FlowLock.Table
import FlowLock.Text.CaseMap
import FlowLock.Value.Literal

/-!
# Import entries

The entries of a document's import list, and the three kinds of import that the
spelling of a path tells apart: a file of this repository, a file of another
repository, and another repository as a whole.
-/

namespace FlowLock.Import

open Text

structure Entry where
  path : String
  heading : Option String
  inputs : List (String × Value)
  written : String
deriving Repr, Inhabited

namespace Entry

def splitHeading (text : String) : String × Option String :=
  match splitOnce text '#' with
  | some (path, heading) => (path, if heading.isEmpty then none else some heading)
  | none => (text, none)

def ofText (text : String) (inputs : List (String × Value)) : Entry :=
  let (path, heading) := splitHeading (trim text)
  { path, heading, inputs, written := text }

def inputTable (e : Entry) : Table Value := Table.ofWritten e.inputs

def shown (e : Entry) : String := if e.written.isEmpty then e.path else e.written

def refusal (fault : SchemaFault) : Error := .schema "imports" fault

def parse (v : Value) : Outcome Entry :=
  match v.opened with
  | .str s => .ok (ofText s [])
  | .map es =>
    match Entries.getD es "path" with
    | .null => .error (refusal .importWithoutPath)
    | .str s =>
      match (Entries.getD es "inputs").opened with
      | .null => .ok (ofText s [])
      | .map inputs => .ok (ofText s (inputs.map fun e => (e.1.plain, e.2)))
      | _ => .error (refusal (.mustBe "import 'inputs'" .object none))
    | _ => .error (refusal (.mustBe "import 'path'" .string none))
  | _ => .error (refusal (.mustBe "import item" .stringOrPathObject none))

def parseAll (v : Value) : Outcome (List Entry) :=
  match v.opened with
  | .null => .ok []
  | .list items => items.mapM parse
  | _ => .error (refusal (.mustBe "imports field" .stringsOrObjects none))

end Entry

/-! ## Kinds of import -/

/-- Whether a path leads to a Markdown file below a directory for agents. -/
def isAgentFile (path : String) : Bool :=
  let text := replaceChar path '\\' '/'
  let rooted := if startsWith text "/" then text else "/" ++ text
  includes rooted "/.github/agents/" && endsWith (lower rooted) ".md"

def isNameChar (c : Char) : Bool :=
  isAsciiLetter c || isAsciiDigit c || c == '_' || c == '.' || c == '-'

def isRun (p : Char → Bool) (s : String) : Bool := !s.isEmpty && s.toList.all p

/-- Whether an import is a repository at a version, `owner/name@version`.  One line
feed at the end does not count. -/
def isRepository (path : String) : Bool :=
  let text := if endsWith path "\n" then dropLastChars path 1 else path
  match splitOnce text '@' with
  | none => false
  | some (repository, version) =>
    match splitOnce repository '/' with
    | none => false
    | some (owner, name) =>
      isRun isNameChar owner && isRun isNameChar name &&
        isRun (fun c => isNameChar c || c == '/') version

/-- Whether an import is a file of another repository at a version,
`owner/name/path@version`. -/
def isRemote (path : String) : Bool :=
  if startsWith path "." || startsWith path "/" || isRepository path then false
  else
    match splitOnce path '@' with
    | none => false
    | some (file, _) => 3 ≤ (splitOn file '/').length

/-! ## Paths in lock files -/

/-- The tail of a list of characters that starts right after the first slash of the
first occurrence of a piece. -/
def fromMarker (marker : List Char) : List Char → Option (List Char)
  | [] => none
  | c :: cs => if marker.isPrefixOf (c :: cs) then some cs else fromMarker marker cs

/-- A path as lock files show it: from the `.github` directory on, or else as seen
from the directory of the main document, so that it does not depend on where the
repository is. -/
def shownPath (workdir path : Path) (base : Option Path) : String :=
  match fromMarker "/.github/".toList path.text.toList with
  | some tail => String.ofList tail
  | none =>
    if startsWith path.text ".github/" then path.text
    else
      match base with
      | none => path.name
      | some base => (Path.relativeTo workdir path base).text

end FlowLock.Import
