import FlowLock.CommandLine

/-!
# The program

The outer layer of the command line: it reads the files below the working directory
into a tree, carries the command out on the tree, and writes the files that are new
or have changed.
-/

namespace FlowLock.Program

def variableNames : List String := ["GH_AW_ACTION_MODE", "GITHUB_REF", "GITHUB_EVENT_NAME"]

def environment : IO (Table String) := do
  let found ← variableNames.filterMapM fun name => do
    return (← IO.getEnv name).map fun value => (name, value)
  return found

def readTree : IO FileTree := do
  let here ← IO.currentDir
  let paths ← here.walkDir fun path => return path.fileName != some ".git"
  let nodes ← paths.toList.mapM fun path => do
    let location := (Path.ofText path.toString).names
    if ← path.isDir then return (location, FileNode.directory)
    else return (location, FileNode.file (← IO.FS.readBinFile path).toList)
  return { nodes, workdir := .ofText here.toString }

def readConfig : IO (Option String) := do
  let home := (← IO.getEnv "HOME").getD ""
  try return some (← IO.FS.readFile (home ++ "/.aw-compiler/config.yaml"))
  catch _ => return none

def writeChanges (before after : FileTree) : IO Unit := do
  for (location, node) in after.nodes do
    match node with
    | .file content =>
      if before.node? location != some node then
        let path := "/" ++ "/".intercalate location
        IO.FS.writeBinFile (path ++ ".tmp") ⟨content.toArray⟩
        IO.FS.rename (path ++ ".tmp") path
    | .directory => pure ()

end FlowLock.Program

open FlowLock in
def main (args : List String) : IO UInt32 := do
  let tree ← Program.readTree
  match CommandLine.run tree (← Program.readConfig) (← Program.environment) args with
  | .error e =>
    IO.eprintln e.message
    return 1
  | .ok (output, after) =>
    Program.writeChanges tree after
    IO.print output.out
    IO.eprint output.err
    return UInt32.ofNat output.exit
