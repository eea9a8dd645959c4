import FlowLock.Error
import FlowLock.Path
import FlowLock.Text.Line
import FlowLock.Text.Order

/-!
# File trees

A tree of files and directories without links.  It is a list of absolute
locations with what is there; the directories on the way to a location are there
too, listed or not.

A path is followed name by name, as a file system does it: two dots go up from a
directory that has to exist, and no name may be too long.
-/

namespace FlowLock

/-- A place in a tree: the names from the root on. -/
abbrev Location := List String

inductive FileNode where
  | file (content : List UInt8)
  | directory
deriving Repr, DecidableEq

inductive FileKind where
  | file
  | directory
  | missing
deriving Repr, DecidableEq

structure FileTree where
  nodes : List (Location × FileNode)
  workdir : Path
deriving Repr, DecidableEq

namespace FileTree

def node? (tree : FileTree) (location : Location) : Option FileNode :=
  (tree.nodes.find? fun e => e.1 == location).map (·.2)

def kindAt (tree : FileTree) (location : Location) : FileKind :=
  match tree.node? location with
  | some (.file _) => .file
  | some .directory => .directory
  | none =>
    if location.isEmpty || location.isPrefixOf tree.workdir.names ||
        tree.nodes.any (fun e => location.isPrefixOf e.1) then .directory
    else .missing

def maxName : Nat := 255

def maxPath : Nat := 4095

/-- The character that ends a path for the system, so that no path can hold it. -/
def nullChar : Char := Char.ofNat 0

/-- The location that names lead to from a location; every name but the last has
to be a directory. -/
def follow (tree : FileTree) (shown : String) : Location → List String →
    Except FileProblem Location
  | here, [] => .ok here
  | here, name :: names =>
    match tree.kindAt here with
    | .missing => .error (.missing shown)
    | .file => .error (.notDirectory shown)
    | .directory =>
      if name == ".." then follow tree shown here.dropLast names
      else if maxName < name.utf8ByteSize then .error (.nameTooLong shown)
      else follow tree shown (here ++ [name]) names

def locate (tree : FileTree) (path : Path) : Except FileProblem Location :=
  if Text.hasChar path.text nullChar then .error .nullCharacter
  else if maxPath < path.text.utf8ByteSize then .error (.nameTooLong path.text)
  else tree.follow path.text [] (tree.workdir.join path).names

/-- What kind of thing a path leads to.  To ask for a name that is too long is fatal;
with any other problem there is nothing at the path. -/
def kindOf (tree : FileTree) (path : Path) : Outcome FileKind :=
  match tree.locate path with
  | .ok location => .ok (tree.kindAt location)
  | .error (.nameTooLong _) => .error .fatal
  | .error _ => .ok .missing

def isFile (tree : FileTree) (path : Path) : Outcome Bool := do
  .ok ((← tree.kindOf path) == .file)

def read (tree : FileTree) (path : Path) : Except FileProblem (List UInt8) := do
  let location ← tree.locate path
  match tree.node? location with
  | some (.file content) => .ok content
  | _ =>
    match tree.kindAt location with
    | .missing => .error (.missing path.text)
    | _ => .error (.isDirectory path.text)

/-- The text of the file at a path, with all line ends as line feeds. -/
def readText (tree : FileTree) (path : Path) : Except FileProblem String := do
  match Utf8.decode (← tree.read path) with
  | .ok cs => .ok (Text.toLineFeeds (String.ofList cs))
  | .error fault => .error (.undecodable fault)

def filesIn (tree : FileTree) (directory : Location) : List String :=
  Text.sorted (tree.nodes.filterMap fun e =>
    match e.2, e.1.getLast? with
    | .file _, some name => if e.1.dropLast == directory then some name else none
    | _, _ => none)

def putNode (location : Location) (content : List UInt8) :
    List (Location × FileNode) → List (Location × FileNode)
  | [] => [(location, .file content)]
  | e :: es =>
    if e.1 == location then (location, .file content) :: es
    else e :: putNode location content es

def put (tree : FileTree) (location : Location) (content : List UInt8) : FileTree :=
  { tree with nodes := putNode location content tree.nodes }

def remove (tree : FileTree) (location : Location) : FileTree :=
  { tree with nodes := tree.nodes.filter fun e => e.1 != location }

end FileTree

end FlowLock
