import FlowLock.Compile
import FlowLock.Console
import FlowLock.Source

/-!
# The command line

The commands of the compiler as functions from a tree of files and arguments to what
is printed, an exit code, and the tree afterwards.
-/

namespace FlowLock.CommandLine

def version : String := "0.1.0"

/-! ## Arguments -/

/-- What a compile command is told. -/
structure Options where
  paths : List String := []
  strict : Bool := false
  trialRepository : Option String := none
  actionMode : Option String := none
  noWrite : Bool := false
  verbose : Bool := false
deriving Repr, DecidableEq

inductive Command where
  | version
  | compile (options : Options)
deriving Repr, DecidableEq

inductive UsageFault where
  | noCommand
  | noSuchCommand (name : String)
  | noSuchOption (name : String)
  | missingValue (name : String)
  | unexpectedValue (name : String)
  | unexpectedArgument (text : String)
deriving Repr, DecidableEq

def UsageFault.message : UsageFault → String
  | .noCommand => "Missing command."
  | .noSuchCommand name => s!"No such command '{name}'."
  | .noSuchOption name => s!"No such option: {name}"
  | .missingValue name => s!"Option '{name}' requires an argument."
  | .unexpectedValue name => s!"Option '{name}' does not take a value."
  | .unexpectedArgument text => s!"Got unexpected extra argument ({text})"

def Options.withFlag (o : Options) (name : String) : Except UsageFault Options :=
  if name == "--strict" then .ok { o with strict := true }
  else if name == "--no-write" then .ok { o with noWrite := true }
  else if name == "--verbose" || name == "-v" then .ok { o with verbose := true }
  else .error (.noSuchOption name)

def takesValue (name : String) : Bool := name == "--trial-repo" || name == "--action-mode"

def Options.withValue (o : Options) (name value : String) : Options :=
  if name == "--trial-repo" then { o with trialRepository := some value }
  else { o with actionMode := some value }

def Options.withPath (o : Options) (path : String) : Options :=
  { o with paths := o.paths ++ [path] }

def parseOptions : Options → List String → Except UsageFault Options
  | o, [] => .ok o
  | o, "--" :: rest => .ok { o with paths := o.paths ++ rest }
  | o, arg :: rest =>
    if !Text.startsWith arg "-" || arg == "-" then parseOptions (o.withPath arg) rest
    else
      match Text.splitOnce arg '=' with
      | some (name, value) =>
        if takesValue name then parseOptions (o.withValue name value) rest
        else do
          let _ ← o.withFlag name
          .error (.unexpectedValue name)
      | none =>
        if takesValue arg then
          match rest with
          | [] => .error (.missingValue arg)
          | value :: rest => parseOptions (o.withValue arg value) rest
        else do
          let o ← o.withFlag arg
          parseOptions o rest

def parse : List String → Except UsageFault Command
  | [] => .error .noCommand
  | "version" :: [] => .ok .version
  | "version" :: arg :: _ => .error (.unexpectedArgument arg)
  | "compile" :: args => do .ok (.compile (← parseOptions {} args))
  | name :: _ => .error (.noSuchCommand name)

/-! ## Output -/

/-- What a command prints on its two channels, and its exit code. -/
structure Output where
  exit : Nat := 0
  out : String := ""
  err : String := ""
deriving Repr, DecidableEq

namespace Output

def error (o : Output) (message : String) : Output :=
  { o with err := o.err ++ Console.shown "✗ " message }

def warning (o : Output) (w : Warning) : Output :=
  { o with err := o.err ++ Console.shown "⚠ " w.message }

def success (o : Output) (message : String) : Output :=
  { o with out := o.out ++ Console.shown "✓ " message }

def info (o : Output) (message : String) : Output :=
  { o with out := o.out ++ Console.shown "" message }

end Output

/-! ## The compile command -/

def Options.unknownMode? (o : Options) : Option String :=
  o.actionMode.filter fun mode => (ActionMode.ofName? mode).isNone

/-- The configuration of a command: its options count before the configuration
file. -/
def configured (base : Config) (o : Options) : Except ConfigFault Config :=
  let config :=
    { base with
      compilerVersion := version
      strict := base.strict || o.strict
      actionMode := o.actionMode.or base.actionMode }
  match o.trialRepository.filter fun repository => !repository.isEmpty with
  | none => .ok config
  | some repository => do
    let trialRepository ← Config.readTrialRepository (.str repository)
    .ok { config with trialMode := true, trialRepository }

structure Progress where
  output : Output := {}
  tree : FileTree
  failures : Nat := 0
  warnings : Nat := 0

/-- The run after one more source.  A source that fails does not stop the others. -/
def compileOne (request : Compile.Request) (p : Progress) (source : Path) : Outcome Progress :=
  match Compile.run LockFile.noTrouble p.tree request source with
  | (.error .fatal, _) => .error .fatal
  | (.error e, tree) =>
    .ok { p with
      output := p.output.error s!"{source.text}: {e.message}"
      tree
      failures := p.failures + 1 }
  | (.ok result, tree) =>
    let output := result.warnings.foldl Output.warning p.output
    let told :=
      if result.written then s!"{source.text} -> {result.lockPath.text}"
      else s!"{source.text} (not written)"
    .ok { p with
      output := output.success told
      tree
      warnings := p.warnings + result.warnings.length }

/-- The sources compiled one after the other, and what is told about them. -/
def compileAll (tree : FileTree) (request : Compile.Request) (sources : List Path) :
    Outcome (Output × FileTree) := do
  let p ← sources.foldlM (compileOne request) { tree }
  let total := sources.length
  let output := (p.output.info "").info
    (s!"Compiled {total - p.failures}/{total} workflow(s) " ++
     s!"with {p.failures} error(s) and {p.warnings} warning(s)")
  .ok ({ output with exit := if p.failures == 0 then 0 else 1 }, p.tree)

def refused (tree : FileTree) (exit : Nat) (message : String) : Outcome (Output × FileTree) :=
  .ok ({ ({} : Output).error message with exit }, tree)

def compile (tree : FileTree) (configText : Option String) (environment : Table String)
    (o : Options) : Outcome (Output × FileTree) :=
  match o.unknownMode? with
  | some mode =>
    refused tree 2 s!"Invalid --action-mode '{mode}'\n  Valid modes: dev, release, script"
  | none => do
    match configured (← Config.ofFile configText) o with
    | .error fault => refused tree 2 ("Invalid option: " ++ fault.message?.getD "")
    | .ok config =>
      match Source.find tree (o.paths.map Path.ofText) with
      | .error .fatal => .error .fatal
      | .error e => refused tree 2 e.message
      | .ok [] => refused tree 1 "No workflow files found"
      | .ok sources => compileAll tree { config, environment, writes := !o.noWrite } sources

/-- A command carried out on a tree.  `configText` is the text of the configuration
file, when there is one. -/
def run (tree : FileTree) (configText : Option String) (environment : Table String)
    (args : List String) : Outcome (Output × FileTree) :=
  match parse args with
  | .error fault =>
    let usage := "Usage: awc [OPTIONS] COMMAND [ARGS]...\n\nError: "
    .ok ({ exit := 2, err := usage ++ fault.message ++ "\n" }, tree)
  | .ok .version => .ok (({} : Output).info s!"awc {version}", tree)
  | .ok (.compile options) => compile tree configText environment options

end FlowLock.CommandLine
