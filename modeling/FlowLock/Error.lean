import FlowLock.Error.Schema
import FlowLock.Text.Search
import FlowLock.Text.Utf8
import FlowLock.Yaml.Problem

/-!
# Errors

The ways in which a compile fails.  An error is a cause with the data that its
message shows; `Error.message` is the only place where the wording is put
together, and `Error.kind` sorts errors into the categories that a caller can
branch on.
-/

namespace FlowLock

open Text

inductive ErrorKind where
  | frontMatterMissing
  | frontMatterMalformed
  | importNotFound
  | importCycle
  | importAgentInlined
  | schema
  | validation
  | invalidCheckout
  | file
deriving Repr, DecidableEq

inductive FrontMatterFault where
  | missing
  | unclosed (line : Nat)
  /-- The block that starts on a line holds something other than a mapping. -/
  | noMapping (got : String) (line : Nat)
  | unreadable (problem : String)
  /-- The block is refused at a place of the document, counted from one. -/
  | malformed (problem : String) (line column : Nat) (snippet : String)
deriving Repr, DecidableEq

inductive ImportFault where
  /-- No file at the resolved path; the chain of importers is shown. -/
  | notFound (entry resolved : String) (importers : List String)
  | noSection (heading target : String)
  | cycle (names : List String)
  | agentInlined (path : String)
deriving Repr, DecidableEq

/-- What the file system, or the text encoding, objects to. -/
inductive FileProblem where
  | missing (path : String)
  | notDirectory (path : String)
  | isDirectory (path : String)
  | targetIsDirectory (source target : String)
  | nameTooLong (path : String)
  /-- A file is to be moved to a name that is too long. -/
  | targetTooLong (source target : String)
  | nullCharacter
  | undecodable (fault : Utf8.Fault)
deriving Repr, DecidableEq

def FileProblem.message : FileProblem → String
  | .missing path => "[Errno 2] No such file or directory: " ++ quoted path
  | .notDirectory path => "[Errno 20] Not a directory: " ++ quoted path
  | .isDirectory path => "[Errno 21] Is a directory: " ++ quoted path
  | .targetIsDirectory source target =>
    "[Errno 21] Is a directory: " ++ quoted source ++ " -> " ++ quoted target
  | .nameTooLong path => "[Errno 36] File name too long: " ++ quoted path
  | .targetTooLong source target =>
    "[Errno 36] File name too long: " ++ quoted source ++ " -> " ++ quoted target
  | .nullCharacter => "embedded null byte"
  | .undecodable fault => fault.message

inductive FileFault where
  | sourceUnreadable (problem : FileProblem)
  | importUnreadable (problem : FileProblem)
  | lockUnwritable (problem : FileProblem)
  | noSource
  | noSuchPath
deriving Repr, DecidableEq

def FileFault.message (path : String) : FileFault → String
  | .sourceUnreadable problem => s!"Cannot read workflow file {path}: {problem.message}"
  | .importUnreadable problem => s!"Cannot read imported file {path}: {problem.message}"
  | .lockUnwritable problem => s!"Cannot write lock file: {problem.message}"
  | .noSource =>
    s!"Not a workflow source: {path}\n" ++
    "  Suggestion: Pass the .md file, not the generated lock file"
  | .noSuchPath => s!"No such file or directory: {path}"

inductive Error where
  | frontMatter (file : Option String) (fault : FrontMatterFault)
  /-- An import failed; the chain leads from the main document to the culprit. -/
  | imports (chain : List String) (fault : ImportFault)
  | schema (field : String) (fault : SchemaFault)
  | invalid (kind : ErrorKind) (messages : List String)
  | currentCheckouts (count : Nat)
  | file (path : String) (fault : FileFault)
  /-- The compile cannot go on, and there is nothing to say about it. -/
  | fatal
deriving Repr, DecidableEq

abbrev Outcome := Except Error

namespace Error

def ofMessage (message : String) : Error := .invalid .validation [message]

/-- The error for a problem with the file at a path.  A null character in the path is
fatal. -/
def ofFile (path : String) (fault : FileProblem → FileFault) : FileProblem → Error
  | .nullCharacter => .fatal
  | problem => .file path (fault problem)

def documentName (file : Option String) : String :=
  match file with
  | none => "<input>"
  | some "" => "<input>"
  | some name => name

def frontMatterMessage (file : Option String) : FrontMatterFault → String
  | .missing =>
    s!"No front-matter found in {documentName file}\n" ++
    "  Why it's needed: Workflow configuration lives in a YAML block between '---' lines\n" ++
    "  How to fix: Start the file with '---', the YAML configuration, then '---'"
  | .unclosed line =>
    s!"Front-matter is not closed in {documentName file}\n" ++
    s!"  Opening '---' found on line {line} without a matching closing '---'\n" ++
    "  Suggestion: Add a '---' line after the YAML configuration"
  | .noMapping got _ =>
    s!"Front-matter in {documentName file} must be a YAML mapping, got {got}\n" ++
    "  Suggestion: Use 'key: value' pairs between the '---' lines"
  | .unreadable problem => s!"Invalid YAML in front-matter of {documentName file}: {problem}"
  | .malformed problem line column snippet =>
    s!"Invalid YAML in front-matter of {documentName file}:{line}:{column}: {problem}\n" ++
    "  " ++ padLeft (toString line) 4 ++ s!" | {snippet}\n" ++
    s!"  Suggestion: Check indentation and quoting near line {line}"

def importMessage : ImportFault → String
  | .notFound entry resolved importers =>
    s!"Import not found: '{entry}'\n" ++
    s!"  Resolved to: {resolved}\n" ++
    "  Imported from: " ++ " -> ".intercalate importers ++ "\n" ++
    "  Suggestion: Check the path is relative to the importing file"
  | .noSection heading target => s!"Section '{heading}' not found in imported file {target}"
  | .cycle names =>
    "Import cycle detected: " ++ " -> ".intercalate names ++ "\n" ++
    "  Suggestion: Remove one of the imports so the files no longer import each other"
  | .agentInlined path =>
    s!"inlined-imports cannot be used with agent file imports: '{path}'\n" ++
    "  Why it's needed: Agent files require runtime access and are not resolved " ++
    "from inlined sources\n" ++
    "  How to fix: Remove 'inlined-imports: true' or the agent file import"

/-- The wording of failed checks: a single one stands for itself, several are
listed. -/
def invalidMessage : List String → String
  | [message] => message
  | messages =>
    s!"{messages.length} validation errors:\n" ++
    "\n".intercalate (messages.map fun m => s!"  - {m}")

def currentCheckoutsMessage (count : Nat) : String :=
  s!"only one checkout target may have current: true, found {count}"

/-- The category of an error; a fatal one has none. -/
def kind? : Error → Option ErrorKind
  | .frontMatter _ .missing => some .frontMatterMissing
  | .frontMatter _ (.unclosed _) => some .frontMatterMissing
  | .frontMatter _ _ => some .frontMatterMalformed
  | .imports _ (.notFound ..) => some .importNotFound
  | .imports _ (.noSection ..) => some .importNotFound
  | .imports _ (.cycle _) => some .importCycle
  | .imports _ (.agentInlined _) => some .importAgentInlined
  | .schema .. => some .schema
  | .invalid kind _ => some kind
  | .currentCheckouts _ => some .invalidCheckout
  | .file .. => some .file
  | .fatal => none

def messages? : Error → Option (List String)
  | .invalid _ messages => some messages
  | .currentCheckouts count => some [currentCheckoutsMessage count]
  | _ => none

def message : Error → String
  | .frontMatter document fault => frontMatterMessage document fault
  | .imports _ fault => importMessage fault
  | .schema _ fault => fault.message
  | .invalid _ messages => invalidMessage messages
  | .currentCheckouts count => currentCheckoutsMessage count
  | .file path fault => fault.message path
  | .fatal => ""

/-- The refusal of a setting that has to be something else; the setting is named
by its field. -/
def mustBe (field : String) (expected : Expectation) (got : Option String) : Error :=
  .schema field (.mustBe field expected got)

end Error

/-- The value of an optional result; to have none is fatal. -/
def orFatal {α : Type} : Option α → Outcome α
  | some a => .ok a
  | none => .error .fatal

namespace Outcome

variable {α β : Type}

@[simp] theorem ok_bind (a : α) (f : α → Outcome β) : ((Except.ok a : Outcome α) >>= f) = f a :=
  rfl

@[simp] theorem error_bind (e : Error) (f : α → Outcome β) :
    ((Except.error e : Outcome α) >>= f) = .error e := rfl

/-- A chain succeeds when its first step does and the rest does after it. -/
theorem bind_eq_ok {x : Outcome α} {f : α → Outcome β} {b : β} :
    (x >>= f) = .ok b ↔ ∃ a, x = .ok a ∧ f a = .ok b := by
  cases x with
  | error e => simp
  | ok a => simp

end Outcome

end FlowLock
