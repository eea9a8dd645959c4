import FlowLock.Import.Entry
import FlowLock.Proofs.Import.Cache
import Mathlib.Logic.Relation

/-!
# The graph of local imports

The documents of a tree with their import lists are a graph: a document leads to the
files that its local entries name.  The graph is read off the tree, without a cache and
without a visit, and it is what the visit of the imports is compared with.
-/

namespace FlowLock.Import

def Entry.isLocal (entry : Entry) : Bool := !isRepository entry.path && !isRemote entry.path

/-- The path that an entry of the document at `importer` names, seen from the directory of
that document. -/
def Entry.leadsTo (entry : Entry) (tree : FileTree) (importer : Path) : Path :=
  Path.resolve tree.workdir (importer.parent.join (Path.ofText entry.path))

/-- The import list in the settings of a document; a list that is refused has no entries. -/
def declaredIn (settings : Entries) : List Entry :=
  match Entry.parseAll (Entries.getD settings "imports") with
  | .ok entries => entries
  | .error _ => []

/-- The import list of the document at a path.  The main document at `root` comes with its
settings; agent files import nothing. -/
def declaredAt (tree : FileTree) (root : Path) (settings : Entries) (path : Path) : List Entry :=
  if path = root then declaredIn settings
  else if isAgentFile path.text then []
  else
    match documentAt tree path with
    | .ok document => declaredIn document.settings
    | .error _ => []

/-- The files that the local ones of some entries name, in their order. -/
def localTargets (tree : FileTree) (importer : Path) (entries : List Entry) : List Path :=
  (entries.filter (·.isLocal)).map (·.leadsTo tree importer)

/-- The files that the document at a path imports, in the order of its import list. -/
def successors (tree : FileTree) (root : Path) (settings : Entries) (path : Path) : List Path :=
  localTargets tree path (declaredAt tree root settings path)

/-! ## Local entries -/

theorem localTargets_cons_of_isLocal {entry : Entry} (h : entry.isLocal)
    (tree : FileTree) (importer : Path) (entries : List Entry) :
    localTargets tree importer (entry :: entries) =
      entry.leadsTo tree importer :: localTargets tree importer entries := by
  simp [localTargets, h]

theorem localTargets_cons_of_not_isLocal {entry : Entry} (h : entry.isLocal = false)
    (tree : FileTree) (importer : Path) (entries : List Entry) :
    localTargets tree importer (entry :: entries) = localTargets tree importer entries := by
  simp [localTargets, h]

/-! ## Import lists -/

variable {tree : FileTree} {root path : Path} {settings : Entries}

theorem declaredIn_of_parseAll {entries : List Entry}
    (h : Entry.parseAll (Entries.getD settings "imports") = .ok entries) :
    declaredIn settings = entries := by
  simp [declaredIn, h]

theorem declaredAt_root : declaredAt tree root settings root = declaredIn settings := by
  simp [declaredAt]

/-! ## What is reachable -/

theorem root_of_mem_successors {p : Path} (h : p ∈ successors tree root settings path) :
    p.root = "/" := by
  obtain ⟨entry, -, rfl⟩ := List.mem_map.mp h
  rfl

theorem wellFormed_of_transGen (hdir : tree.workdir.WellFormed) (hroot : root.WellFormed)
    (h : Relation.TransGen (fun p q => q ∈ successors tree root settings p) root path) :
    path.WellFormed := by
  have hstep : ∀ {p q : Path}, p.WellFormed → q ∈ successors tree root settings p →
      q.WellFormed := by
    intro p q hp hq
    obtain ⟨entry, -, rfl⟩ := List.mem_map.mp hq
    exact hdir.resolve (hp.parent.join (Path.wellFormed_ofText _))
  induction h with
  | single h => exact hstep hroot h
  | tail _ h ih => exact hstep ih h

theorem root_of_transGen
    (h : Relation.TransGen (fun p q => q ∈ successors tree root settings p) root path) :
    path.root = "/" := by
  cases h with
  | single h => exact root_of_mem_successors h
  | tail _ h => exact root_of_mem_successors h

/-- Files that include the main document and import no others are all that is reached. -/
theorem mem_of_reachable {files : List Path} (hroot : root ∈ files)
    (hclosed : ∀ p ∈ files, ∀ q ∈ successors tree root settings p, q ∈ files)
    (h : Relation.ReflTransGen (fun p q => q ∈ successors tree root settings p) root path) :
    path ∈ files := by
  induction h with
  | refl => exact hroot
  | tail _ hstep ih => exact hclosed _ ih _ hstep

end FlowLock.Import
