import FlowLock.Text.Search

/-!
# Paths

A path is a root and the names below it.  Reading a path drops empty names and
single dots; two dots stay, because what they lead to depends on what is there.
-/

namespace FlowLock

/-- A path: `root` is empty for a relative path. -/
structure Path where
  root : String
  names : List String
deriving Repr, DecidableEq, Inhabited

namespace Path

/-- The root that a spelling starts with.  Two slashes are a root of their own,
three or more are the same as one. -/
def rootOf : List Char → String
  | '/' :: '/' :: '/' :: _ => "/"
  | '/' :: '/' :: _ => "//"
  | '/' :: _ => "/"
  | _ => ""

def ofText (s : String) : Path :=
  { root := rootOf s.toList
    names := (Text.splitOn s '/').filter fun name => name != "" && name != "." }

def text (p : Path) : String :=
  if p.root == "" && p.names.isEmpty then "." else p.root ++ "/".intercalate p.names

def isAbsolute (p : Path) : Bool := p.root != ""

def name (p : Path) : String := p.names.getLast?.getD ""

/-- A file name cut before its last dot, unless that dot is its first or last
character. -/
def splitName (name : String) : String × String :=
  match Text.splitLast name '.' with
  | some (stem, extension) =>
    if stem.isEmpty || extension.isEmpty then (name, "") else (stem, "." ++ extension)
  | none => (name, "")

def stem (p : Path) : String := (splitName p.name).1

def suffix (p : Path) : String := (splitName p.name).2

def parent (p : Path) : Path := { p with names := p.names.dropLast }

def withName (p : Path) (name : String) : Path :=
  { p with names := p.names.dropLast ++ [name] }

/-- The second path seen from the first: an absolute one stands for itself. -/
def join (p q : Path) : Path :=
  if q.isAbsolute then q else { p with names := p.names ++ q.names }

/-- A directory reached by names one after the other, where two dots go up and the
root is above itself. -/
def collapse (names : List String) : List String :=
  names.foldl (fun up name => if name == ".." then up.dropLast else up ++ [name]) []

/-- The absolute path without dots that a path leads to from a directory. -/
def resolve (directory p : Path) : Path :=
  { root := "/", names := collapse (directory.join p).names }

/-- The names that two lists start with, taken off both. -/
def withoutCommon : List String → List String → List String × List String
  | a :: as, b :: bs => if a == b then withoutCommon as bs else (a :: as, b :: bs)
  | as, bs => (as, bs)

/-- The relative path that leads from `base` to `p`; `directory` is where relative
paths start. -/
def relativeTo (directory p base : Path) : Path :=
  let (ahead, up) := withoutCommon (resolve directory p).names (resolve directory base).names
  { root := "", names := up.map (fun _ => "..") ++ ahead }

end Path

end FlowLock
