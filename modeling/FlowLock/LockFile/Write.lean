import FlowLock.FileTree

/-!
# Writing lock files

A lock file stands beside its source.  It is written to a temporary file first,
which is then renamed, so that a reader finds the old lock file or the new one and
nothing in between; when a step fails, the temporary file is removed again.
-/

namespace FlowLock.LockFile

def ending : String := ".lock.yml"

def pathOf (source : Path) : Path := source.withName (source.stem ++ ending)

inductive WriteStep where
  | create
  | fill
  | rename
deriving Repr, DecidableEq

/-- What goes wrong in which step, apart from what the tree itself refuses. -/
abbrev Trouble := WriteStep → Option FileProblem

def noTrouble : Trouble := fun _ => none

def temporaryName : String := ".awc-TMP.yml.tmp"

def temporaryNames (count : Nat) : List String :=
  (List.range count).map fun n => ".awc-TMP" ++ Text.repeated "P" n ++ ".yml.tmp"

/-- A location in a directory where the tree has nothing.  There are more names to
try than locations in the tree, so one of them is free. -/
def freshLocation (tree : FileTree) (directory : Location) : Location :=
  let free := (temporaryNames (tree.nodes.length + 1)).find? fun name =>
    !tree.nodes.any fun e => (directory ++ [name]).isPrefixOf e.1
  directory ++ [free.getD temporaryName]

def attempt (trouble : Trouble) (step : WriteStep) (after : Except FileProblem FileTree) :
    Except FileProblem FileTree :=
  match trouble step with
  | some problem => .error problem
  | none => after

def rename (tree : FileTree) (source target : Path) (old new : Location)
    (content : List UInt8) : Except FileProblem FileTree :=
  if Text.hasChar target.text FileTree.nullChar then .error .nullCharacter
  else if FileTree.maxName < target.name.utf8ByteSize then
    .error (.targetTooLong source.text target.text)
  else if tree.kindAt new == .directory then
    .error (.targetIsDirectory source.text target.text)
  else .ok ((tree.remove old).put new content)

def write (trouble : Trouble) (tree : FileTree) (path : Path) (content : String) :
    Outcome Path × FileTree :=
  let directory := Path.resolve tree.workdir path.parent
  let temporary := directory.join { root := "", names := [temporaryName] }
  let bytes := Utf8.encode content
  let failed (problem : FileProblem) (tree : FileTree) : Outcome Path × FileTree :=
    (.error (.ofFile path.text .lockUnwritable problem), tree)
  match tree.locate temporary with
  | .error problem => failed problem tree
  | .ok _ =>
    let location := freshLocation tree directory.names
    match attempt trouble .create (.ok (tree.put location [])) with
    | .error problem => failed problem tree
    | .ok created =>
      if Text.hasHalf content then (.error .fatal, created.remove location)
      else match attempt trouble .fill (.ok (created.put location bytes)) with
      | .error problem => failed problem (created.remove location)
      | .ok filled =>
        let target := (Path.resolve tree.workdir path).names
        match attempt trouble .rename (rename filled temporary path location target bytes) with
        | .error problem => failed problem (filled.remove location)
        | .ok renamed => (.ok path, renamed)

end FlowLock.LockFile
