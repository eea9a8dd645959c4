import FlowLock.Proofs.Import.Visit

/-!
# The imports of a document are what is reachable from it

Resolving always has an outcome of its own: it is never cut off, on cyclic imports either.
When it succeeds, the imported documents are those reachable over local entries, each once
and in depth-first order, and each was read once.

The reads are counted in the cache that the visit works with.  A cache with nothing in it is
not that cache: it counts nothing for its owner, whatever is imported.
-/

namespace FlowLock.Imports

open Import Path Entries List

/-- The paths list what is reachable from a root, without the root itself, each once and in
depth-first order from left to right. -/
structure ListsReachable (next : Path → List Path) (root : Path) (paths : List String) : Prop where
  nodup : paths.Nodup
  not_mem : root.text ∉ paths
  mem_iff : ∀ text, text ∈ paths ↔
    ∃ p, Relation.TransGen (fun p q => q ∈ next p) root p ∧ p.text = text
  preorder : ∃ order, DepthFirst next [] (next root) order ∧ order.map (·.text) = paths

variable {tree : FileTree} {cache : Cache} {inlining : Bool} {source : Path} {settings : Entries}
  {entries : List Entry} {r : Resolution}

/-! ## The end -/

/-- However much deeper than the tree has files a visit may go, its outcome is the same. -/
theorem resolveWithin_eq (tree : FileTree) (cache : Cache) (inlining : Bool) (source : Path)
    (settings : Entries) {depth : Nat} (h : tree.nodes.length < depth) :
    resolveWithin depth tree cache inlining source settings =
      some (resolve tree cache inlining source settings) := by
  unfold resolve resolveWithin
  cases Entry.parseAll (getD settings "imports") with
  | error e => rfl
  | ok entries =>
    dsimp only
    set root := Path.resolve tree.workdir source
    have hsome : (visit tree root.parent inlining (tree.nodes.length + 1) root [root] entries
        { cache := workingCache cache, visited := [], imports := {} }).isSome :=
      visit_isSome (Nat.lt_succ_of_le (length_ahead_le tree [root])) entries _
    obtain ⟨outcome, houtcome⟩ := Option.isSome_iff_exists.mp hsome
    rw [visit_of_le (by omega) houtcome, houtcome]
    rfl

/-! ## What is listed -/

theorem listsReachable_of_depthFirst {root : Path} {order : List Path}
    (hdir : tree.workdir.WellFormed) (hroot : root.WellFormed) (hslash : root.root = "/")
    (hout : root ∉ order)
    (h : DepthFirst (successors tree root settings) [] (successors tree root settings root) order) :
    ListsReachable (successors tree root settings) root (order.map (·.text)) := by
  -- Among the listed paths and the root, equal spellings are equal paths.
  have hwell : ∀ p ∈ order, p.WellFormed ∧ p.root = "/" := by
    intro p hp
    have hreach := (h.mem_iff_transGen p).mp hp
    exact ⟨wellFormed_of_transGen hdir hroot hreach, root_of_transGen hreach⟩
  refine ⟨?_, ?_, ?_, order, h, rfl⟩
  · refine Nodup.map_on ?_ h.nodup
    intro p hp q hq heq
    exact text_inj (hwell p hp).1 (hwell q hq).1 (hwell p hp).2 (hwell q hq).2 heq
  · intro hmem
    obtain ⟨p, hp, heq⟩ := mem_map.mp hmem
    obtain rfl := text_inj (hwell p hp).1 hroot (hwell p hp).2 hslash heq
    exact hout hp
  · intro text
    simp only [mem_map, h.mem_iff_transGen]

theorem agrees_workingCache (h : cache.Agrees tree) : (workingCache cache).Agrees tree := by
  unfold workingCache
  split
  · exact Cache.agrees_empty tree
  · exact h

abbrev started (cache : Cache) : Visit :=
  { cache := workingCache cache, visited := [], imports := {} }

/-- The visit that resolving is has an outcome, however much deeper it may go. -/
theorem exists_visit {depth : Nat} (cache : Cache) (inlining : Bool) {root : Path}
    (hroot : Path.resolve tree.workdir source = root)
    (hentries : Entry.parseAll (getD settings "imports") = .ok entries)
    (hdepth : tree.nodes.length < depth) :
    ∃ outcome,
      visit tree root.parent inlining depth root [root] entries (started cache) = some outcome ∧
      resolve tree cache inlining source settings =
        outcome.map fun v => { imports := v.imports, cache := v.cache } := by
  have hwithin := resolveWithin_eq tree cache inlining source settings hdepth
  unfold resolveWithin at hwithin
  rw [hentries, hroot] at hwithin
  obtain ⟨outcome, hvisit, hmap⟩ := Option.map_eq_some_iff.mp hwithin
  exact ⟨outcome, hvisit, hmap.symm⟩

theorem resolve_of_parseAll_error {e : Error} (tree : FileTree) (cache : Cache) (inlining : Bool)
    (source : Path) (h : Entry.parseAll (getD settings "imports") = .error e) :
    resolve tree cache inlining source settings = .error e := by
  simp [resolve, resolveWithin, h]

theorem visit_of_resolve (h : resolve tree cache inlining source settings = .ok r) :
    ∃ root entries visited, Path.resolve tree.workdir source = root ∧
      Entry.parseAll (getD settings "imports") = .ok entries ∧
      visit tree root.parent inlining (tree.nodes.length + 1) root [root] entries (started cache) =
        some (.ok { cache := r.cache, visited, imports := r.imports }) := by
  cases hentries : Entry.parseAll (getD settings "imports") with
  | error e =>
    rw [resolve_of_parseAll_error tree cache inlining source hentries] at h
    cases h
  | ok entries =>
    obtain ⟨outcome, hvisit, hmap⟩ := exists_visit cache inlining rfl hentries (Nat.lt_succ_self _)
    rw [h] at hmap
    cases outcome with
    | error e => cases hmap
    | ok v =>
      cases hmap
      exact ⟨_, entries, v.visited, rfl, rfl, hvisit⟩

/-- **What is told of resolving from the moves of the visit**: `P` holds of the visit at all
times, and `Q` of an error. -/
theorem resolve_rule {root : Path} {P : Visit → Prop} {Q : Error → Prop}
    {outcome : Outcome Resolution} (hroot : Path.resolve tree.workdir source = root)
    (hagrees : cache.Agrees tree) (h : resolve tree cache inlining source settings = outcome)
    (hparse : ∀ e, Entry.parseAll (getD settings "imports") = .error e → Q e)
    (hfail : ∀ {importer stack v entry e}, Asked tree root settings importer stack entry →
      v.cache.Agrees tree → P v →
      move tree root.parent inlining importer stack v entry = .error e → Q e)
    (hmove : ∀ {importer stack v entry m}, Asked tree root settings importer stack entry →
      v.cache.Agrees tree → P v →
      Moved tree root.parent inlining importer stack v entry m → P m.after)
    (hstart : P (started cache)) :
    outcome.Ends (fun r => ∃ visited, P { cache := r.cache, visited, imports := r.imports }) Q := by
  rw [← h]
  cases hentries : Entry.parseAll (getD settings "imports") with
  | error e =>
    rw [resolve_of_parseAll_error tree cache inlining source hentries]
    exact hparse e hentries
  | ok entries =>
    obtain ⟨outcome, hvisit, hmap⟩ := exists_visit cache inlining hroot hentries
      (Nat.lt_succ_self _)
    have hends := visit_rule (P := fun v => v.cache.Agrees tree ∧ P v)
      (fun hasked hv => hfail hasked hv.1 hv.2)
      (fun hasked hv hmoved => ⟨hmoved.agrees hv.1, hmove hasked hv.1 hv.2 hmoved⟩)
      (fun hasked hv hmoved => hmoved.asks hasked hv.1) hvisit (Asked.start hentries)
      ⟨agrees_workingCache hagrees, hstart⟩
    rw [hmap]
    cases outcome with
    | error e => exact hends
    | ok v => exact ⟨v.visited, hends.2⟩

/-- What holds of every file that is entered holds of all. -/
theorem forall_files_of_resolve {P : File → Prop}
    (h : resolve tree cache inlining source settings = .ok r)
    (hnew : ∀ {base importer stack v entry path file cache} isInlined,
      Entered tree base importer stack v entry path file cache → P { file with isInlined }) :
    ∀ file ∈ r.imports.files, P file := by
  obtain ⟨root, entries, visited, -, -, hvisit⟩ := visit_of_resolve h
  exact visit_invariant (P := fun v => ∀ file ∈ v.imports.files, P file)
    (fun hmoved hv => hmoved.forall_files hv hnew) hvisit (forall_mem_nil _)

/-- A successful visit of the imports never led back to a document on the way. -/
theorem clear_of_resolve (hagrees : cache.Agrees tree)
    (h : resolve tree cache inlining source settings = .ok r) :
    ∃ root order, Path.resolve tree.workdir source = root ∧
      Adds tree (started cache) { cache := r.cache, visited := order, imports := r.imports } order ∧
      ClearVisit (successors tree root settings) [root] [] (successors tree root settings root)
        order := by
  obtain ⟨root, entries, visited, hroot, hentries, hvisit⟩ := visit_of_resolve h
  obtain ⟨order, hadds, horder⟩ := visit_explores settings (mem_singleton_self _) hvisit
    (agrees_workingCache hagrees)
  obtain rfl : visited = order := by simpa using hadds.visited
  refine ⟨root, visited, hroot, hadds, ?_⟩
  rw [successors, declaredAt_root, declaredIn_of_parseAll hentries]
  exact horder

theorem paths_eq (i : Imports) : i.paths = (i.files.map (·.path)).map (·.text) := by
  simp [paths]

theorem paths_eq_nil_iff (hagrees : cache.Agrees tree)
    (h : resolve tree cache inlining source settings = .ok r) :
    r.imports.paths = [] ↔ successors tree (Path.resolve tree.workdir source) settings
        (Path.resolve tree.workdir source) = [] := by
  obtain ⟨root, order, rfl, hadds, hclear⟩ := clear_of_resolve hagrees h
  have horder := hclear.depthFirst
  have hfiles : r.imports.files.map (·.path) = order := by simpa using hadds.paths
  rw [paths_eq, hfiles, map_eq_nil_iff]
  constructor
  · rintro rfl
    refine eq_nil_iff_forall_not_mem.mpr fun p hp => ?_
    simpa using horder.mem_of_mem_pending p hp
  · intro hnone
    rw [hnone] at horder
    cases horder
    rfl

/-- A fresh cache finds nothing and keeps every file. -/
theorem fresh_of_resolve (h : resolve tree .empty inlining source settings = .ok r) :
    r.cache.hits = 0 ∧ r.cache.misses = r.imports.paths.length ∧
      r.cache.paths.map (·.text) = r.imports.paths := by
  obtain ⟨root, order, -, hadds, -⟩ := clear_of_resolve (Cache.agrees_empty tree) h
  have hfiles : r.imports.files.map (·.path) = order := by simpa using hadds.paths
  have hkept : r.cache.paths = order := (hadds.fresh rfl).1
  have hhits : r.cache.hits = 0 := (hadds.fresh rfl).2
  have hreads : r.cache.hits + r.cache.misses = 0 + 0 + order.length := hadds.reads
  rw [paths_eq, hfiles, hkept, length_map]
  exact ⟨hhits, by omega, rfl⟩

/-- **Resolving lists what is reachable from the main document.**

For a tree, a main document and settings: however deep documents import each other, the
visit has an outcome and is not cut off.  On success, and with a cache that is right about
the tree, the imported paths list what is reachable over local imports, and each of these
files was read once.  With a fresh cache none of them is found in it and all are kept; but
the owner of the fresh cache sees these numbers only where no file is imported at all. -/
theorem resolve_lists_reachable (nodes : List (Location × FileNode)) (directory main : String)
    (inlining : Bool) (settings : Entries) :
    let tree : FileTree := { nodes, workdir := ofText directory }
    let source := ofText main
    let root := Path.resolve tree.workdir source
    let next := successors tree root settings
    (∀ cache depth, nodes.length < depth →
      resolveWithin depth tree cache inlining source settings =
        some (resolve tree cache inlining source settings)) ∧
    (∀ cache r, cache.Agrees tree → resolve tree cache inlining source settings = .ok r →
      ListsReachable next root r.imports.paths ∧
      r.cache.hits + r.cache.misses =
        (workingCache cache).hits + (workingCache cache).misses + r.imports.paths.length) ∧
    ∀ r, resolve tree .empty inlining source settings = .ok r →
      r.cache.hits = 0 ∧ r.cache.misses = r.imports.paths.length ∧
      r.cache.paths.map (·.text) = r.imports.paths ∧
      ((r.callerCache .empty).hits = 0 ∧ (r.callerCache .empty).misses = r.imports.paths.length ↔
        next root = []) := by
  intro tree source root next
  refine ⟨fun cache depth h => resolveWithin_eq tree cache inlining source settings h, ?_, ?_⟩
  · intro cache r hagrees h
    obtain ⟨_, order, rfl, hadds, hclear⟩ := clear_of_resolve hagrees h
    have hout : root ∉ order := fun hmem => hclear.not_mem_way root hmem (mem_singleton_self _)
    have hfiles : r.imports.files.map (·.path) = order := by simpa using hadds.paths
    have hdir : tree.workdir.WellFormed := wellFormed_ofText directory
    have hroot : root.WellFormed := hdir.resolve (Path.wellFormed_ofText main)
    rw [paths_eq, hfiles, length_map]
    exact ⟨listsReachable_of_depthFirst hdir hroot rfl hout hclear.depthFirst, hadds.reads⟩
  · intro r h
    obtain ⟨hhits, hmisses, hkept⟩ := fresh_of_resolve h
    have hcaller : r.callerCache .empty = .empty := rfl
    refine ⟨hhits, hmisses, hkept, ?_⟩
    rw [hcaller, ← paths_eq_nil_iff (Cache.agrees_empty tree) h, ← length_eq_zero_iff]
    exact ⟨fun hcounts => hcounts.2.symm, fun hnone => ⟨rfl, hnone.symm⟩⟩

/-- A document that the main document imports, and that another import of it imports too. -/
theorem resolve_lists_reachable_shared :
    let tree : FileTree :=
      { nodes :=
          [(["repo", "a.md"], .file (Utf8.encode "---\nimports: [b.md]\n---\n")),
           (["repo", "b.md"], .file (Utf8.encode "B\n"))]
        workdir := ofText "/repo" }
    let source := ofText "main.md"
    let root := Path.resolve tree.workdir source
    let settings : Entries :=
      [(.str "imports", .list [.str "a.md", .str "./b.md", .str "owner/name@v1"])]
    ∃ r, resolve tree .empty false source settings = .ok r ∧
      r.imports.paths = ["/repo/a.md", "/repo/b.md"] ∧
      ListsReachable (successors tree root settings) root r.imports.paths ∧
      r.cache.hits = 0 ∧ r.cache.misses = 2 := by
  intro tree source root settings
  obtain ⟨r, hr, hpaths⟩ : ∃ r, resolve tree .empty false source settings = .ok r ∧
      r.imports.paths = ["/repo/a.md", "/repo/b.md"] := by decide +kernel
  obtain ⟨-, hlists, hfresh⟩ := resolve_lists_reachable tree.nodes "/repo" "main.md" false settings
  obtain ⟨hhits, hmisses, -⟩ := hfresh r hr
  refine ⟨r, hr, hpaths, (hlists .empty r (Cache.agrees_empty tree) hr).1, hhits, ?_⟩
  rw [hmisses, hpaths]
  rfl

/-- **The owner of a fresh cache learns nothing from it**: a file is imported, and no read is
counted. -/
theorem callerCache_counts_nothing :
    let tree : FileTree :=
      { nodes := [(["repo", "a.md"], .file (Utf8.encode "A\n"))]
        workdir := ofText "/repo" }
    let settings : Entries := [(.str "imports", .list [.str "a.md"])]
    ∃ r, resolve tree .empty false (ofText "main.md") settings = .ok r ∧
      r.imports.paths = ["/repo/a.md"] ∧
      (r.callerCache .empty).misses ≠ r.imports.paths.length := by
  decide +kernel

end FlowLock.Imports
