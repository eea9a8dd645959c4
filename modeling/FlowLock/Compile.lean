import FlowLock.LockFile.Render
import FlowLock.LockFile.Write
import FlowLock.Workflow.Check
import FlowLock.Workflow.Jobs

/-!
# Compiling a workflow

A compile goes from a document to the text of its lock file and touches nothing on
the way; only when all of it went well is the lock file written.
-/

namespace FlowLock.Compile

open LockFile

/-- What a compile starts from, the files apart. -/
structure Request where
  config : Config := {}
  pin : PinResolver := resolvePin
  environment : Table String := []
  writes : Bool := true

structure Result where
  source : Path
  lockPath : Path
  content : String
  warnings : List Warning := []
  written : Bool := false

def isSource (path : Path) : Bool :=
  !Text.endsWith path.name ending && path.suffix == ".md"

/-- How the header of a lock file names its source. -/
def shownSource (workdir source : Path) : String :=
  let path := Path.resolve workdir source
  let shown := Import.shownPath workdir path none
  if Text.startsWith shown ".github/" then shown else path.name

def workflowOf (tree : FileTree) (request : Request) (source : Path) : Outcome Workflow := do
  let document ← Document.read tree source true
  let inlining := (Entries.getD document.settings "inlined-imports").isTrue
  let resolution ← Imports.resolve tree .empty inlining source document.settings
  let imports := resolution.imports
  let digest ← Imports.digest document.settings (some imports) document.body
  let workflow ← Workflow.build document.settings document.body source imports .dev digest
  let configured : Value := match request.config.actionMode with
    | some mode => .str mode
    | none => .null
  let mode ← ActionMode.detect configured workflow.features request.environment
  .ok { workflow with mode }

/-- The context in which a workflow is compiled; a workflow can ask for strict mode. -/
def contextOf (request : Request) (w : Workflow) : Context :=
  { config := { request.config with strict := request.config.strict || w.strict }
    mode := w.mode
    pin := request.pin }

def checked (ctx : Context) (engine : Engine) (w : Workflow) : Outcome (List Warning) :=
  if ctx.config.skipValidation then .ok []
  else
    match w.check engine ctx.config.strict with
    | (.ok (), warnings) => .ok warnings
    | (.error e, _) => .error e

/-- The lock file of a source.  Settings that hold themselves cannot be written. -/
def render (tree : FileTree) (request : Request) (source : Path) : Outcome Result :=
  if !isSource source then .error (.file source.text .noSource)
  else do
    let w ← workflowOf tree request source
    let ctx := contextOf request w
    let engine ← Engine.read w.engine.id
    let warnings ← checked ctx engine w
    let (compiled, more) ← w.compiled engine ctx
    let header : LockFile.Header :=
      { hash := w.digest
        version := ctx.config.compilerVersion
        source := shownSource tree.workdir source
        description := w.description
        workflowVersion := w.version }
    if compiled.isFinite then
      .ok
        { source
          lockPath := pathOf source
          content := LockFile.render header compiled
          warnings := warnings ++ more }
    else .error .fatal

/-- The result of a compile, and the tree afterwards.  `trouble` is what goes wrong in
writing. -/
def run (trouble : Trouble) (tree : FileTree) (request : Request) (source : Path) :
    Outcome Result × FileTree :=
  match render tree request source with
  | .error e => (.error e, tree)
  | .ok result =>
    if !request.writes then (.ok result, tree)
    else
      match write trouble tree result.lockPath result.content with
      | (.error e, after) => (.error e, after)
      | (.ok _, after) => (.ok { result with written := true }, after)

end FlowLock.Compile
