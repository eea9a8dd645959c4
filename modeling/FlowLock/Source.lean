import FlowLock.FileTree

/-!
# Sources

The workflow documents that a command is to compile.  A file stands for itself and
a directory for the Markdown files directly in it.
-/

namespace FlowLock.Source

def defaultDirectory : Path := .ofText ".github/workflows"

def inDirectory (tree : FileTree) (path : Path) : List Path :=
  match tree.locate path with
  | .error _ => []
  | .ok location =>
    ((tree.filesIn location).filter fun name => Text.endsWith name ".md").map fun name =>
      path.join { root := "", names := [name] }

def ofPath (tree : FileTree) (path : Path) : Outcome (List Path) := do
  match ← tree.kindOf path with
  | .directory => .ok (inDirectory tree path)
  | .file => .ok [path]
  | .missing => .error (.file path.text .noSuchPath)

/-- The documents that paths stand for, in order. -/
def find (tree : FileTree) (paths : List Path) : Outcome (List Path) := do
  let paths := if paths.isEmpty then [defaultDirectory] else paths
  let found ← paths.mapM (ofPath tree)
  .ok found.flatten

end FlowLock.Source
