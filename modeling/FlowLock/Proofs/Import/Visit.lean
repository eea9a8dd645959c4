import FlowLock.Proofs.DepthFirst
import FlowLock.Proofs.FileTree
import FlowLock.Proofs.Import.Graph
import FlowLock.Proofs.Import.Record

/-!
# The visit of imports follows the graph

`Moved` says once what an entry can do to the visit: it is from elsewhere, it leads to a
document that was met before, or it enters a new one.  From this follow what a whole visit
adds (`Adds`), in which order (`visit_explores`), and that it always ends (`visit_isSome`):
a visit goes down only to files of the tree that are not on the way to it.
-/

namespace FlowLock.Imports

open Import Outcome List

variable {tree : FileTree} {base importer path : Path} {inlining : Bool} {stack : List Path}
  {entry : Entry} {v v' v'' : Visit} {cache : Cache} {file : File}
  {below : Path → List Entry → Visit → Option (Outcome Visit)} {entries : List Entry} {depth : Nat}
  {outcome : Outcome Visit} {m : Move} {P : Visit → Prop}

/-! ## Parts of a step -/

theorem target_eq_ok (h : target tree importer stack entry = .ok path) :
    path = entry.leadsTo tree importer ∧
      tree.isFile (importer.parent.join (Path.ofText entry.path)) = .ok true ∧
      Text.endsWith (Text.lower entry.path) ".lock.yml" = false := by
  unfold target at h
  split at h
  · cases h
  · next hlock =>
    obtain ⟨found, hfound, h⟩ := bind_eq_ok.mp h
    split at h
    · next hfile =>
      subst hfile
      cases h
      exact ⟨rfl, hfound, by simpa using hlock⟩
    · cases h

/-- The file that an entry makes of a document and the text that it asks for. -/
def fileOf (tree : FileTree) (base path : Path) (entry : Entry) (cached : Cached) (text : String) :
    File :=
  { entry, path
    shown := shownPath tree.workdir path (some base)
    digest := cached.digest
    settings := cached.document.settings
    body := substitute text entry.inputTable
    isAgent := isAgentFile path.text
    isInlined := false }

theorem loaded_of_loadFile {after : Cache} (hpath : Path.resolve tree.workdir path = path)
    (h : loadFile tree base stack cache path entry = .ok (file, after)) :
    ∃ cached text, cache.ReadAs tree path cached after ∧
      importedText stack path cached.document.body entry = .ok text ∧
      file = fileOf tree base path entry cached text := by
  unfold loadFile at h
  rcases hread : cache.read tree path with ⟨outcome, left⟩
  rw [hread] at h
  obtain ⟨cached, houtcome, hrest⟩ := bind_eq_ok.mp h
  obtain ⟨text, htext, hfile⟩ := bind_eq_ok.mp hrest
  simp only [Except.ok.injEq, Prod.mk.injEq] at hfile
  obtain ⟨rfl, rfl⟩ := hfile
  rw [houtcome] at hread
  exact ⟨cached, text, Cache.readAs_of_read hpath hread, htext, rfl⟩

/-- An import from elsewhere is kept among the repositories, or among the remote documents and
what is taken at run time. -/
theorem visitElsewhere?_eq_some (h : visitElsewhere? v entry = some v') :
    entry.isLocal = false ∧
      ((∃ repositories, v' = { v with imports := { v.imports with repositories } }) ∨
        v' = { v with imports :=
          { v.imports with remotes := v.imports.remotes ++ [entry.written] }.defer entry.written }) := by
  unfold visitElsewhere? at h
  split at h
  · next hrepository =>
    cases h
    refine ⟨by simp [Entry.isLocal, hrepository], .inl ?_⟩
    split
    · exact ⟨v.imports.repositories, rfl⟩
    · exact ⟨_, rfl⟩
  · split at h
    · next hremote =>
      cases h
      refine ⟨by simp [Entry.isLocal, hremote], ?_⟩
      split
      · exact .inl ⟨v.imports.repositories, rfl⟩
      · exact .inr rfl
    · cases h

theorem isLocal_of_visitElsewhere? (h : visitElsewhere? v entry = none) : entry.isLocal := by
  unfold visitElsewhere? at h
  split at h
  · cases h
  · split at h
    · cases h
    · next hrepository hremote => simp [Entry.isLocal, hrepository, hremote]

/-! ## What an entry does -/

/-- A file of the tree that is neither on the way nor met before is read. -/
structure Entered (tree : FileTree) (base importer : Path) (stack : List Path) (v : Visit)
    (entry : Entry) (path : Path) (file : File) (cache : Cache) : Prop where
  isLocal : entry.isLocal = true
  target : target tree importer stack entry = .ok path
  not_mem_stack : path ∉ stack
  not_mem_visited : path ∉ v.visited
  loadFile : loadFile tree base stack v.cache path entry = .ok (file, cache)

/-- Everything that an entry can do to the visit, other than to end it. -/
inductive Moved (tree : FileTree) (base : Path) (inlining : Bool) (importer : Path)
    (stack : List Path) (v : Visit) (entry : Entry) : Move → Prop
  | elsewhere {v' : Visit} (h : visitElsewhere? v entry = some v') :
      Moved tree base inlining importer stack v entry (.stay v')
  | again {path : Path} (hlocal : entry.isLocal = true)
      (htarget : target tree importer stack entry = .ok path) (hstack : path ∉ stack)
      (hvisited : path ∈ v.visited) :
      Moved tree base inlining importer stack v entry (.stay v)
  | agent {path : Path} {file : File} {cache : Cache} {imports : Imports}
      (hentered : Entered tree base importer stack v entry path file cache)
      (hagent : file.isAgent = true) (hadd : v.imports.addAgent inlining stack file = .ok imports) :
      Moved tree base inlining importer stack v entry
        (.stay { cache, visited := v.visited ++ [path], imports })
  | document {path : Path} {file : File} {cache : Cache} {imports : Imports}
      {nested : List Entry}
      (hentered : Entered tree base importer stack v entry path file cache)
      (hagent : file.isAgent = false) (hadd : v.imports.addDocument inlining file = .ok imports)
      (hnested : Entry.parseAll (Entries.getD file.settings "imports") = .ok nested) :
      Moved tree base inlining importer stack v entry
        (.descend path nested { cache, visited := v.visited ++ [path], imports })

theorem moved_of_move (h : move tree base inlining importer stack v entry = .ok m) :
    Moved tree base inlining importer stack v entry m := by
  unfold move at h
  split at h
  · next v' helsewhere =>
    cases h
    exact .elsewhere helsewhere
  · next helsewhere =>
    have hlocal := isLocal_of_visitElsewhere? helsewhere
    obtain ⟨path, htarget, h⟩ := bind_eq_ok.mp h
    split at h
    · cases h
    · next hstack =>
      split at h
      · next hvisited =>
        cases h
        exact .again hlocal htarget (by simpa using hstack) (by simpa using hvisited)
      · next hvisited =>
        obtain ⟨⟨file, cache⟩, hload, h⟩ := bind_eq_ok.mp h
        have hentered : Entered tree base importer stack v entry path file cache :=
          ⟨hlocal, htarget, by simpa using hstack, by simpa using hvisited, hload⟩
        dsimp only at h
        split at h
        · next hagent =>
          obtain ⟨imports, hadd, h⟩ := bind_eq_ok.mp h
          cases h
          exact .agent hentered hagent hadd
        · next hagent =>
          obtain ⟨imports, hadd, h⟩ := bind_eq_ok.mp h
          obtain ⟨nested, hnested, h⟩ := bind_eq_ok.mp h
          cases h
          exact .document hentered (by simpa using hagent) hadd hnested

namespace Entered

variable (h : Entered tree base importer stack v entry path file cache)
include h

theorem path_eq : path = entry.leadsTo tree importer := (target_eq_ok h.target).1

theorem resolve_eq : Path.resolve tree.workdir path = path := by
  rw [h.path_eq]
  exact Path.resolve_resolve ..

theorem loaded : ∃ cached text, v.cache.ReadAs tree path cached cache ∧
    importedText stack path cached.document.body entry = .ok text ∧
    file = fileOf tree base path entry cached text :=
  loaded_of_loadFile h.resolve_eq h.loadFile

theorem isInlined_eq : file.isInlined = false := by
  obtain ⟨cached, text, -, -, rfl⟩ := h.loaded
  rfl

theorem readAs : ∃ cached, v.cache.ReadAs tree path cached cache ∧ file.path = path ∧
    file.settings = cached.document.settings ∧ file.isAgent = isAgentFile path.text := by
  obtain ⟨cached, text, hread, -, rfl⟩ := h.loaded
  exact ⟨cached, hread, by simp only [fileOf, and_self]⟩

end Entered

/-! ## What a visit keeps -/

def Move.after : Move → Visit
  | .stay v => v
  | .descend _ _ v => v

/-- **What is told of a visit from its moves.**  `A` holds of the entries there are to visit,
`P` holds of the visit at all times, and `Q` of an error that ends it. -/
theorem visit_rule {Q : Error → Prop} {A : Path → List Path → Entry → Prop}
    (hfail : ∀ {importer stack v entry e}, A importer stack entry → P v →
      move tree base inlining importer stack v entry = .error e → Q e)
    (hmove : ∀ {importer stack v entry m}, A importer stack entry → P v →
      Moved tree base inlining importer stack v entry m → P m.after)
    (hnested : ∀ {importer stack v entry path nested v'}, A importer stack entry → P v →
      Moved tree base inlining importer stack v entry (.descend path nested v') →
      ∀ e ∈ nested, A path (stack ++ [path]) e)
    (h : visit tree base inlining depth importer stack entries v = some outcome)
    (hasked : ∀ entry ∈ entries, A importer stack entry) (hv : P v) : outcome.Ends P Q := by
  induction depth generalizing importer stack entries v outcome with
  | zero => simp [visit] at h
  | succ depth ihDepth =>
    rw [visit] at h
    induction entries generalizing v with
    | nil =>
      obtain rfl := Option.some.inj h
      exact hv
    | cons entry entries ih =>
      obtain ⟨hentry, hentries⟩ := forall_mem_cons.mp hasked
      unfold visitEach at h
      split at h
      · next e hstep =>
        obtain rfl := Option.some.inj h
        exact hfail hentry hv hstep
      · next v₁ hstep => exact ih h hentries (hmove hentry hv (moved_of_move hstep))
      · next path nested v₁ hstep =>
        have hmoved := moved_of_move hstep
        have hinside : ∀ {outcome}, visit tree base inlining depth path (stack ++ [path]) nested v₁ =
            some outcome → outcome.Ends P Q := fun hdone =>
          ihDepth hdone (hnested hentry hv hmoved) (hmove hentry hv hmoved)
        split at h
        · next v₂ hdone => exact ih h hentries (hinside hdone)
        · exact hinside h

/-- **What every move keeps, a visit keeps.** -/
theorem visit_invariant (hmove : ∀ {importer stack v entry m},
      Moved tree base inlining importer stack v entry m → P v → P m.after)
    (h : visit tree base inlining depth importer stack entries v = some (.ok v')) (hv : P v) :
    P v' :=
  visit_rule (Q := fun _ => True) (A := fun _ _ _ => True) (fun _ _ _ => trivial)
    (fun _ hv hmoved => hmove hmoved hv) (fun _ _ _ _ _ => trivial) h (fun _ _ => trivial) hv

/-! ## Visits side by side -/

/-- Visits that keep step: both are cut off, both end well and are related, or both end with
errors that are. -/
inductive Paired (R : Visit → Visit → Prop) (E : Error → Error → Prop) :
    Option (Outcome Visit) → Option (Outcome Visit) → Prop
  | none : Paired R E none none
  | ok {v v' : Visit} (h : R v v') : Paired R E (some (.ok v)) (some (.ok v'))
  | error {e e' : Error} (h : E e e') : Paired R E (some (.error e)) (some (.error e'))

/-- Moves that keep step.  `A` holds of the entries they lead down to. -/
inductive MovesPaired (R : Visit → Visit → Prop) (E : Error → Error → Prop)
    (A : Path → Path → Entry → Prop) : Outcome Move → Outcome Move → Prop
  | error {e e' : Error} (h : E e e') : MovesPaired R E A (.error e) (.error e')
  | stay {v v' : Visit} (h : R v v') : MovesPaired R E A (.ok (.stay v)) (.ok (.stay v'))
  | descend {path path' : Path} {nested : List Entry} {v v' : Visit} (h : R v v')
      (hnested : ∀ e ∈ nested, A path path' e) :
      MovesPaired R E A (.ok (.descend path nested v)) (.ok (.descend path' nested v'))

/-- **Where moves keep step, visits do.** -/
theorem visit_paired {R : Visit → Visit → Prop} {E : Error → Error → Prop}
    {A : Path → List Path → Path → List Path → Entry → Prop} {tree' : FileTree}
    {base' importer' : Path} {stack' : List Path}
    (hmove : ∀ {importer stack importer' stack' entry v v'}, A importer stack importer' stack' entry →
      R v v' → MovesPaired R E (fun p p' e => A p (stack ++ [p]) p' (stack' ++ [p']) e)
        (move tree base inlining importer stack v entry)
        (move tree' base' inlining importer' stack' v' entry))
    (hasked : ∀ entry ∈ entries, A importer stack importer' stack' entry) (hv : R v v') :
    Paired R E (visit tree base inlining depth importer stack entries v)
      (visit tree' base' inlining depth importer' stack' entries v') := by
  induction depth generalizing importer stack importer' stack' entries v v' with
  | zero => exact .none
  | succ depth ihDepth =>
    rw [visit, visit]
    induction entries generalizing v v' with
    | nil => exact .ok hv
    | cons entry entries ih =>
      obtain ⟨hentry, hentries⟩ := forall_mem_cons.mp hasked
      have hstep := hmove hentry hv
      rw [visitEach, visitEach]
      generalize move tree base inlining importer stack v entry = m at hstep
      generalize move tree' base' inlining importer' stack' v' entry = m' at hstep
      cases hstep with
      | error he => exact .error he
      | stay hv => exact ih hentries hv
      | @descend path path' nested v₁ v₁' hv hnested =>
        have hinside := ihDepth hnested hv
        dsimp only
        generalize visit tree base inlining depth path _ nested v₁ = outcome at hinside
        generalize visit tree' base' inlining depth path' _ nested v₁' = outcome' at hinside
        cases hinside with
        | none => exact .none
        | error he => exact .error he
        | ok hv => exact ih hentries hv

/-! ## What a visit adds -/

/-- What a visit from `v` to `v'` leaves behind when it entered the files of `order`. -/
structure Adds (tree : FileTree) (v v' : Visit) (order : List Path) : Prop where
  visited : v'.visited = v.visited ++ order
  paths : v'.imports.files.map (·.path) = v.imports.files.map (·.path) ++ order
  reads : v'.cache.hits + v'.cache.misses = v.cache.hits + v.cache.misses + order.length
  agrees : v.cache.Agrees tree → v'.cache.Agrees tree
  /-- While the cache holds just the files met, nothing is found in it. -/
  fresh : v.cache.paths = v.visited → v'.cache.paths = v'.visited ∧ v'.cache.hits = v.cache.hits

namespace Adds

variable {order order' : List Path}

protected theorem refl (tree : FileTree) (v : Visit) : Adds tree v v [] :=
  { visited := by simp
    paths := by simp
    reads := rfl
    agrees := id
    fresh := fun h => ⟨h, rfl⟩ }

protected theorem trans (h : Adds tree v v' order) (h' : Adds tree v' v'' order') :
    Adds tree v v'' (order ++ order') where
  visited := by rw [h'.visited, h.visited, append_assoc]
  paths := by rw [h'.paths, h.paths, append_assoc]
  reads := by rw [h'.reads, h.reads, length_append, Nat.add_assoc]
  agrees := h'.agrees ∘ h.agrees
  fresh := by
    intro hfresh
    obtain ⟨hpaths, hhits⟩ := h.fresh hfresh
    obtain ⟨hpaths', hhits'⟩ := h'.fresh hpaths
    exact ⟨hpaths', hhits'.trans hhits⟩

end Adds

theorem adds_of_visitElsewhere? (tree : FileTree) (h : visitElsewhere? v entry = some v') :
    Adds tree v v' [] := by
  obtain ⟨-, ⟨repositories, rfl⟩ | rfl⟩ := visitElsewhere?_eq_some h
  all_goals exact { Adds.refl tree v with }

theorem Entered.adds {imports : Imports}
    (h : Entered tree base importer stack v entry path file cache)
    (hadd : ∃ isInlined, imports.files = v.imports.files ++ [{ file with isInlined }]) :
    Adds tree v { cache, visited := v.visited ++ [path], imports } [path] := by
  obtain ⟨cached, hread, hpath, -, -⟩ := h.readAs
  obtain ⟨isInlined, hadd⟩ := hadd
  exact
    { visited := rfl
      paths := by simp [hadd, hpath]
      reads := hread.count
      agrees := hread.agrees
      fresh := by
        intro hfresh
        obtain ⟨hhits, hpaths⟩ := hread.of_not_mem (hfresh ▸ h.not_mem_visited)
        exact ⟨by rw [hpaths, hfresh], hhits⟩ }

theorem Entered.agrees (h : Entered tree base importer stack v entry path file cache)
    (hagrees : v.cache.Agrees tree) : cache.Agrees tree := by
  obtain ⟨cached, hread, -⟩ := h.readAs
  exact hread.agrees hagrees

theorem Moved.agrees (h : Moved tree base inlining importer stack v entry m)
    (hagrees : v.cache.Agrees tree) : m.after.cache.Agrees tree := by
  cases h with
  | elsewhere hv => exact (adds_of_visitElsewhere? tree hv).agrees hagrees
  | again _ _ _ _ => exact hagrees
  | agent hentered _ _ => exact hentered.agrees hagrees
  | document hentered _ _ _ => exact hentered.agrees hagrees

theorem Moved.forall_files {P : File → Prop} (h : Moved tree base inlining importer stack v entry m)
    (hv : ∀ file ∈ v.imports.files, P file)
    (hnew : ∀ {path file cache} isInlined, Entered tree base importer stack v entry path file cache →
      P { file with isInlined }) : ∀ file ∈ m.after.imports.files, P file := by
  have hadded : ∀ {path file cache} {i : Imports},
      Entered tree base importer stack v entry path file cache →
      (∃ isInlined, i.files = v.imports.files ++ [{ file with isInlined }]) →
      ∀ f ∈ i.files, P f := by
    rintro path file cache i hentered ⟨isInlined, hfiles⟩
    rw [hfiles]
    exact forall_mem_append.mpr ⟨hv, forall_mem_singleton.mpr (hnew _ hentered)⟩
  cases h with
  | elsewhere h => obtain ⟨-, ⟨repositories, rfl⟩ | rfl⟩ := visitElsewhere?_eq_some h <;> exact hv
  | again => exact hv
  | agent hentered hagent hadd =>
    exact hadded hentered (files_of_addAgent hagent hentered.isInlined_eq hadd)
  | document hentered hagent hadd =>
    exact hadded hentered (files_of_addDocument hagent hentered.isInlined_eq hadd)

/-! ## The order of a visit -/

section Order

variable {root : Path} {settings : Entries}

theorem Entered.declaredAt_eq (h : Entered tree base importer stack v entry path file cache)
    (hroot : root ∈ stack) (hagrees : v.cache.Agrees tree) :
    declaredAt tree root settings path =
      if file.isAgent then [] else declaredIn file.settings := by
  -- The main document is on the way, so what is entered is another one.
  have hother : path ≠ root := fun heq => h.not_mem_stack (heq ▸ hroot)
  obtain ⟨cached, hread, -, hsettings, hisAgent⟩ := h.readAs
  rw [declaredAt, if_neg hother, hread.documentAt_eq hagrees, hisAgent, hsettings]

theorem mem_successors (hlocal : entry.isLocal)
    (h : entry ∈ declaredAt tree root settings importer) :
    entry.leadsTo tree importer ∈ successors tree root settings importer :=
  mem_map.mpr ⟨entry, mem_filter.mpr ⟨h, hlocal⟩, rfl⟩

abbrev Edge (tree : FileTree) (root : Path) (settings : Entries) (p q : Path) : Prop :=
  q ∈ successors tree root settings p

/-- The documents on the way from the main document to an importer: each is imported by the
one before. -/
inductive OnWay (tree : FileTree) (root : Path) (settings : Entries) : List Path → Path → Prop
  | start : OnWay tree root settings [root] root
  | descend {stack : List Path} {importer path : Path} (h : OnWay tree root settings stack importer)
      (hpath : path ∈ successors tree root settings importer) :
      OnWay tree root settings (stack ++ [path]) path

namespace OnWay

theorem root_mem (h : OnWay tree root settings stack importer) : root ∈ stack := by
  induction h with
  | start => exact mem_singleton_self root
  | descend _ _ ih => exact mem_append_left _ ih

theorem head?_eq (h : OnWay tree root settings stack importer) : stack.head? = some root := by
  induction h with
  | start => rfl
  | descend _ _ ih => rw [head?_append, ih, Option.some_or]

theorem reachable (h : OnWay tree root settings stack importer) {p : Path} (hp : p ∈ stack) :
    Relation.ReflTransGen (Edge tree root settings) root p ∧
      Relation.ReflTransGen (Edge tree root settings) p importer := by
  induction h generalizing p with
  | start =>
    rw [mem_singleton.mp hp]
    exact ⟨.refl, .refl⟩
  | @descend stack importer path h hpath ih =>
    rcases mem_append.mp hp with hp | hp
    · exact ⟨(ih hp).1, (ih hp).2.tail hpath⟩
    · rw [mem_singleton.mp hp]
      have hroot := ih h.root_mem
      exact ⟨(hroot.1.trans hroot.2).tail hpath, .refl⟩

end OnWay

/-- An entry is in the import list of a document, at the end of the way to it. -/
structure Asked (tree : FileTree) (root : Path) (settings : Entries) (importer : Path)
    (stack : List Path) (entry : Entry) : Prop where
  way : OnWay tree root settings stack importer
  declared : entry ∈ declaredAt tree root settings importer

namespace Asked

theorem start (hentries : Entry.parseAll (Entries.getD settings "imports") = .ok entries) :
    ∀ entry ∈ entries, Asked tree root settings root [root] entry := by
  intro entry hentry
  exact ⟨.start, by rwa [declaredAt_root, declaredIn_of_parseAll hentries]⟩

theorem reachable (h : Asked tree root settings importer stack entry) :
    Relation.ReflTransGen (Edge tree root settings) root importer :=
  (h.way.reachable h.way.root_mem).2

theorem edge (h : Asked tree root settings importer stack entry) (hlocal : entry.isLocal) :
    Edge tree root settings importer (entry.leadsTo tree importer) :=
  mem_successors hlocal h.declared

end Asked

theorem Moved.asks {nested : List Entry}
    (h : Moved tree base inlining importer stack v entry (.descend path nested v'))
    (hasked : Asked tree root settings importer stack entry) (hagrees : v.cache.Agrees tree) :
    ∀ e ∈ nested, Asked tree root settings path (stack ++ [path]) e := by
  cases h with
  | document hentered hagent _ hnested =>
    intro e he
    refine ⟨hasked.way.descend (hentered.path_eq ▸ hasked.edge hentered.isLocal), ?_⟩
    rwa [hentered.declaredAt_eq hasked.way.root_mem hagrees, hagent, if_neg Bool.false_ne_true,
      declaredIn_of_parseAll hnested]

/-- The visit of some entries of a document went over what is new below them in
depth-first order, and led back to none of the documents on the way. -/
def Explores (tree : FileTree) (root : Path) (settings : Entries) (importer : Path)
    (stack : List Path) (entries : List Entry) (v v' : Visit) : Prop :=
  ∃ order, Adds tree v v' order ∧ ClearVisit (successors tree root settings) stack v.visited
      (localTargets tree importer entries) order

/-- An entry that enters nothing new is skipped. -/
private theorem Explores.skip (hadds : Adds tree v v' []) (hskip : entry.isLocal = false ∨
      entry.isLocal ∧ entry.leadsTo tree importer ∉ stack ∧ entry.leadsTo tree importer ∈ v.visited)
    (h : Explores tree root settings importer stack entries v' v'') :
    Explores tree root settings importer stack (entry :: entries) v v'' := by
  obtain ⟨order, hrest, horder⟩ := h
  have hvisited : v'.visited = v.visited := by simpa using hadds.visited
  rw [hvisited] at horder
  refine ⟨order, hadds.trans hrest, ?_⟩
  rcases hskip with hlocal | ⟨hlocal, hstack, hmem⟩
  · rwa [localTargets_cons_of_not_isLocal hlocal]
  · rw [localTargets_cons_of_isLocal hlocal]
    exact .skip hstack hmem horder

private theorem Explores.enter {v₁ v₂ v₃ : Visit}
    (hentered : Entered tree base importer stack v entry path file cache)
    (hadds : Adds tree v v₁ [path])
    (hinside : Explores tree root settings path (stack ++ [path])
      (declaredAt tree root settings path) v₁ v₂)
    (h : Explores tree root settings importer stack entries v₂ v₃) :
    Explores tree root settings importer stack (entry :: entries) v v₃ := by
  obtain ⟨below, hadds', hbelow⟩ := hinside
  obtain ⟨order, hrest, horder⟩ := h
  have hvisited : v₂.visited = v.visited ++ path :: below := by
    rw [hadds'.visited, hadds.visited, append_assoc, singleton_append]
  refine ⟨path :: below ++ order, ?_, ?_⟩
  · simpa using (hadds.trans hadds').trans hrest
  · rw [localTargets_cons_of_isLocal hentered.isLocal, ← hentered.path_eq]
    rw [hadds.visited] at hbelow
    rw [hvisited] at horder
    exact .enter hentered.not_mem_stack hentered.not_mem_visited hbelow horder

theorem visitEach_explores (hroot : root ∈ stack)
    (hbelow : ∀ {path nested v v'}, below path nested v = some (.ok v') → v.cache.Agrees tree →
      Explores tree root settings path (stack ++ [path]) nested v v')
    (h : visitEach (move tree base inlining importer stack) below entries v = some (.ok v'))
    (hagrees : v.cache.Agrees tree) : Explores tree root settings importer stack entries v v' := by
  induction entries generalizing v with
  | nil =>
    simp only [visitEach, Option.some.injEq, Except.ok.injEq] at h
    subst h
    exact ⟨[], .refl tree v, .done _ _⟩
  | cons entry entries ih =>
    unfold visitEach at h
    split at h
    · simp at h
    · next v₁ hmove =>
      cases moved_of_move hmove with
      | elsewhere helsewhere =>
        have hadds := adds_of_visitElsewhere? tree helsewhere
        exact .skip hadds (.inl (visitElsewhere?_eq_some helsewhere).1)
          (ih h (hadds.agrees hagrees))
      | again hlocal htarget hstack hvisited =>
        obtain rfl := (target_eq_ok htarget).1
        exact .skip (.refl tree v) (.inr ⟨hlocal, hstack, hvisited⟩) (ih h hagrees)
      | agent hentered hagent hadd =>
        have hadds := hentered.adds (files_of_addAgent hagent hentered.isInlined_eq hadd)
        refine .enter hentered hadds ?_ (ih h (hadds.agrees hagrees))
        rw [hentered.declaredAt_eq hroot hagrees, if_pos hagent]
        exact ⟨[], .refl tree _, .done _ _⟩
    · next path nested v₁ hmove =>
      cases moved_of_move hmove with
      | document hentered hagent hadd hnested =>
        have hadds := hentered.adds (files_of_addDocument hagent hentered.isInlined_eq hadd)
        split at h
        · next v₂ hdone =>
          obtain ⟨order, hadds', horder⟩ := hbelow hdone (hadds.agrees hagrees)
          refine .enter hentered hadds ?_ (ih h (hadds'.agrees (hadds.agrees hagrees)))
          rw [hentered.declaredAt_eq hroot hagrees, hagent, if_neg Bool.false_ne_true,
            declaredIn_of_parseAll hnested]
          exact ⟨order, hadds', horder⟩
        · next hstopped => exact absurd h (hstopped v')

/-- **A visit goes over the graph of imports in depth-first order**, from left to right. -/
theorem visit_explores (settings : Entries) (hroot : root ∈ stack)
    (h : visit tree base inlining depth importer stack entries v = some (.ok v'))
    (hagrees : v.cache.Agrees tree) : Explores tree root settings importer stack entries v v' := by
  induction depth generalizing importer stack entries v v' with
  | zero => simp [visit] at h
  | succ depth ih =>
    refine visitEach_explores hroot ?_ h hagrees
    intro path nested v v' hbelow hagrees
    exact ih (mem_append_left _ hroot) hbelow hagrees

end Order

/-! ## The end of a visit -/

def ahead (tree : FileTree) (stack : List Path) : List (Location × FileNode) :=
  tree.nodes.filter fun e => ⟨"/", e.1⟩ ∉ stack

theorem length_ahead_le (tree : FileTree) (stack : List Path) :
    (ahead tree stack).length ≤ tree.nodes.length := length_filter_le ..

theorem Entered.length_ahead_lt (h : Entered tree base importer stack v entry path file cache) :
    (ahead tree (stack ++ [path])).length < (ahead tree stack).length := by
  obtain ⟨hpath, hfile, -⟩ := target_eq_ok h.target
  obtain ⟨content, hmem⟩ := FileTree.mem_nodes_of_isFile hfile
  rw [← Entry.leadsTo, ← hpath] at hmem
  have hspelled : (⟨"/", path.names⟩ : Path) = path := by rw [hpath]; rfl
  have hahead : (path.names, FileNode.file content) ∈ ahead tree stack := by
    simpa [ahead, hspelled] using ⟨hmem, h.not_mem_stack⟩
  have hless : ahead tree (stack ++ [path]) =
      (ahead tree stack).filter fun e => (⟨"/", e.1⟩ : Path) ≠ path := by
    simp only [ahead, filter_filter, mem_append, mem_singleton, not_or,
      Bool.decide_and, Bool.and_comm, ne_eq]
  rw [hless]
  exact length_filter_lt_length_iff_exists.mpr ⟨_, hahead, by simp [hspelled]⟩

theorem visitEach_isSome
    (hbelow : ∀ path nested v, (ahead tree (stack ++ [path])).length < (ahead tree stack).length →
      (below path nested v).isSome) (entries : List Entry) (v : Visit) :
    (visitEach (move tree base inlining importer stack) below entries v).isSome := by
  induction entries generalizing v with
  | nil => rfl
  | cons entry entries ih =>
    unfold visitEach
    split
    · rfl
    · exact ih _
    · next path nested v₁ hmove =>
      cases moved_of_move hmove with
      | document hentered _ _ _ =>
        obtain ⟨outcome, houtcome⟩ := Option.isSome_iff_exists.mp
          (hbelow path nested _ hentered.length_ahead_lt)
        rw [houtcome]
        cases outcome with
        | ok v₂ => exact ih v₂
        | error e => rfl

/-- **A visit is not cut off** when it may go as deep as the tree has files that are not on
the way. -/
theorem visit_isSome (h : (ahead tree stack).length < depth) (entries : List Entry) (v : Visit) :
    (visit tree base inlining depth importer stack entries v).isSome := by
  induction depth generalizing importer stack entries v with
  | zero => omega
  | succ depth ih =>
    refine visitEach_isSome ?_ entries v
    intro path nested v hless
    exact ih (by omega) nested v

theorem visitEach_of_below {m : Visit → Entry → Outcome Move}
    {below' : Path → List Entry → Visit → Option (Outcome Visit)}
    (hbelow : ∀ {path nested v o}, below path nested v = some o → below' path nested v = some o)
    (h : visitEach m below entries v = some outcome) :
    visitEach m below' entries v = some outcome := by
  induction entries generalizing v with
  | nil => exact h
  | cons entry entries ih =>
    unfold visitEach at h ⊢
    split at h
    · exact h
    · exact ih h
    · next path nested v₁ hmove =>
      cases hinside : below path nested v₁ with
      | none => simp [hinside] at h
      | some inside =>
        simp only [hbelow hinside]
        rw [hinside] at h
        cases inside with
        | ok v₂ => exact ih h
        | error e => exact h

/-- A visit that is not cut off has the same outcome however much deeper it may go. -/
theorem visit_of_le {depth' : Nat} (hle : depth ≤ depth')
    (h : visit tree base inlining depth importer stack entries v = some outcome) :
    visit tree base inlining depth' importer stack entries v = some outcome := by
  induction depth generalizing depth' importer stack entries v outcome with
  | zero => simp [visit] at h
  | succ depth ih =>
    obtain ⟨deeper, rfl⟩ : ∃ deeper, depth' = deeper + 1 := ⟨depth' - 1, by omega⟩
    exact visitEach_of_below (ih (by omega)) h

end FlowLock.Imports
