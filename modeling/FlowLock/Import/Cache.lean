import FlowLock.Digest.Sha256
import FlowLock.Document

/-!
# The cache of imported documents

Imported documents are taken apart once for each content: the cache keeps the
document of a path with the digest of the text it came from, and the file is read
every time to see whether that text is still there.
-/

namespace FlowLock.Import

structure Cached where
  path : Path
  content : String
  digest : String
  document : Document

/-- The documents read so far by their absolute paths, with the number of times
that a document was found here and that it was not. -/
structure Cache where
  entries : List (Path × Cached)
  hits : Nat
  misses : Nat

namespace Cache

def empty : Cache := { entries := [], hits := 0, misses := 0 }

def size (cache : Cache) : Nat := cache.entries.length

def get? (cache : Cache) (path : Path) : Option Cached :=
  (cache.entries.find? fun e => e.1 == path).map (·.2)

def putEntry (path : Path) (cached : Cached) : List (Path × Cached) → List (Path × Cached)
  | [] => [(path, cached)]
  | e :: es => if e.1 == path then (path, cached) :: es else e :: putEntry path cached es

def put (cache : Cache) (path : Path) (cached : Cached) : Cache :=
  { cache with entries := putEntry path cached cache.entries }

def parse (path : Path) (content : String) : Outcome Cached := do
  let document ← Document.split (some path.text) false content
  .ok { path, content, digest := Sha256.hexOfText content, document }

/-- The document at a path, and the cache after reading it.  A document that cannot
be taken apart counts as not found here and is not kept. -/
def read (cache : Cache) (tree : FileTree) (path : Path) : Outcome Cached × Cache :=
  let target := Path.resolve tree.workdir path
  match tree.readText target with
  | .error problem => (.error (.ofFile target.text .importUnreadable problem), cache)
  | .ok content =>
    match (cache.get? target).filter fun c => c.digest == Sha256.hexOfText content with
    | some cached => (.ok cached, { cache with hits := cache.hits + 1 })
    | none =>
      let counted := { cache with misses := cache.misses + 1 }
      match parse target content with
      | .ok cached => (.ok cached, counted.put target cached)
      | .error e => (.error e, counted)

end Cache

end FlowLock.Import
