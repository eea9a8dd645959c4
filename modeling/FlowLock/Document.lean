import FlowLock.FileTree
import FlowLock.Value.Literal
import FlowLock.Yaml.Load

/-!
# Workflow documents

A workflow document is a block of settings between two fences, and a body.  The
first fence is the first line that is not blank; a document may do without the
block when it is only imported.
-/

namespace FlowLock

open Text

/-- A document: the settings, the body, and where both were found.  Line numbers
count from one; `blockLine` is zero when there is no block. -/
structure Document where
  settings : Entries
  body : String
  block : List String
  blockLine : Nat
  bodyLine : Nat
deriving Inhabited

namespace Document

def hasBlock (d : Document) : Bool := d.blockLine > 0

def isFence (line : String) : Bool := trimEnd line == "---"

def withoutMark (s : String) : String :=
  match s.toList with
  | c :: cs => if c.toNat == 0xfeff then String.ofList cs else s
  | [] => s

/-- A text as it is taken apart: lines end with a line feed alone, and there is no
byte-order mark. -/
def normalized (content : String) : String :=
  withoutMark (replaceAll content "\r\n" "\n")

/-- The fault for a block that cannot be loaded.  Places are counted from the start
of the document. -/
def loadFault (block : List String) (blockLine : Nat) (failure : Yaml.Failure) :
    FrontMatterFault :=
  match failure.mark? with
  | none => .unreadable failure.message
  | some mark =>
    .malformed failure.message (mark.line + blockLine) (mark.column + 1)
      (block.getD mark.line "")

/-- The settings in a block; a blank block has none. -/
def settingsOf (name : Option String) (block : List String) (blockLine : Nat) :
    Outcome Entries :=
  let text := unlines block
  if isAllBlank text then .ok []
  else
    match Yaml.load Yaml.Schema.workflow text with
    | .error .fatal => .error .fatal
    | .error failure => .error (.frontMatter name (loadFault block blockLine failure))
    | .ok v =>
      match v.opened with
      | .null => .ok []
      | .map es => .ok (Entries.ofWritten (es.map fun e => (.str e.1.plain, e.2)))
      | v => .error (.frontMatter name (.noMapping v.kindName blockLine))

/-- The parts of a text.  `name` stands for the document in messages; a text
without a block is all body unless a block is required. -/
def split (name : Option String) (required : Bool) (content : String) : Outcome Document :=
  let text := normalized content
  let lines := lines text
  let start := (lines.takeWhile isAllBlank).length
  let bodyOnly : Outcome Document :=
    if required then .error (.frontMatter name .missing)
    else .ok { settings := [], body := text, block := [], blockLine := 0, bodyLine := 1 }
  match lines.dropWhile isAllBlank with
  | [] => bodyOnly
  | first :: rest =>
    if !isFence first then bodyOnly
    else
      let block := rest.takeWhile fun line => !isFence line
      match rest.dropWhile fun line => !isFence line with
      | [] => .error (.frontMatter name (.unclosed (start + 1)))
      | _ :: body => do
        let settings ← settingsOf name block (start + 2)
        .ok
          { settings
            body := unlines body
            block
            blockLine := start + 2
            bodyLine := start + block.length + 3 }

def read (tree : FileTree) (path : Path) (required : Bool) : Outcome Document :=
  match tree.readText path with
  | .error problem => .error (.ofFile path.text .sourceUnreadable problem)
  | .ok content => split (some path.text) required content

end Document

end FlowLock
