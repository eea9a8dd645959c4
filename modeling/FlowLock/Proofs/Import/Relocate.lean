import FlowLock.Proofs.Import.Resolve
import FlowLock.Proofs.Import.Shown

/-!
# Imports do not depend on the directory

The files of a repository can be below one directory or another.  A visit of the imports that
stays inside meets the same files in both, step by step, and what it gathers differs in the
paths of the files alone: what lock files show of them is the same when the directories look
alike.
-/

namespace FlowLock

open Outcome List Path FileTree Entries Option

/-! ## Documents -/

namespace Document

theorem matches_settingsOf (name name' : Option String) (block : List String) (blockLine : Nat) :
    Matches Eq (settingsOf name block blockLine) (settingsOf name' block blockLine) := by
  unfold settingsOf
  dsimp only
  split
  · exact .ok rfl
  · split
    · exact .error _ _
    · exact .error _ _
    · split
      · exact .ok rfl
      · exact .ok rfl
      · exact .error _ _

theorem matches_split (name name' : Option String) (required : Bool) (content : String) :
    Matches Eq (split name required content) (split name' required content) := by
  have hbody : ∀ document : Document,
      Matches Eq (if required then .error (.frontMatter name .missing) else .ok document)
        (if required then .error (.frontMatter name' .missing) else .ok document) := by
    intro document
    cases required with
    | false => exact .ok rfl
    | true => exact .error _ _
  unfold split
  dsimp only
  split
  · exact hbody _
  · split
    · exact hbody _
    · split
      · exact .error _ _
      · refine (matches_settingsOf name name' _ _).bind ?_
        rintro settings _ - - rfl
        exact .ok rfl

end Document

namespace Import

/-! ## Ways inside a directory -/

def Entry.way (entry : Entry) (importer : Location) : Location :=
  importer.dropLast ++ (Path.ofText entry.path).names

/-- An entry with a relative path that stays inside, and that can be looked up below both
directories. -/
structure Entry.Inside (entry : Entry) (d d' importer : Location) : Prop where
  relative : (Path.ofText entry.path).isAbsolute = false
  staysInside : staysInside [] (entry.way importer) = true
  fits : Fits d (entry.way importer)
  fits' : Fits d' (entry.way importer)

instance (entry : Entry) (d d' importer : Location) : Decidable (entry.Inside d d' importer) :=
  decidable_of_iff
    ((Path.ofText entry.path).isAbsolute = false ∧ Path.staysInside [] (entry.way importer) = true ∧
      Fits d (entry.way importer) ∧ Fits d' (entry.way importer))
    ⟨fun h => ⟨h.1, h.2.1, h.2.2.1, h.2.2.2⟩, fun h => ⟨h.relative, h.staysInside, h.fits, h.fits'⟩⟩

def Reaches (tree : FileTree) (d source : Location) (settings : Entries) (place : Location) :
    Prop :=
  Relation.ReflTransGen (fun p q => q ∈ successors tree (below d source) settings p)
    (below d source) (below d place)

/-- A local entry of a document that is reached from a source below a directory. -/
structure Asks (tree : FileTree) (d source : Location) (settings : Entries) (importer : Location)
    (entry : Entry) : Prop where
  reaches : Reaches tree d source settings importer
  declared : entry ∈ declaredAt tree (below d source) settings (below d importer)
  isLocal : entry.isLocal = true

variable {tree : FileTree} {d' : Location}

/-- To see that all entries stay inside it is enough to look at some places that include the source
and that import no others. -/
theorem inside_of_closed {d source : Location} {settings : Entries} {places : List Location}
    (hsource : source ∈ places)
    (hclosed : ∀ p ∈ places.map (below d), ∀ q ∈ successors tree (below d source) settings p,
      q ∈ places.map (below d))
    (hinside : ∀ place ∈ places, ∀ entry ∈ declaredAt tree (below d source) settings
      (below d place), entry.Inside d d' place) :
    ∀ importer entry, Asks tree d source settings importer entry → entry.Inside d d' importer := by
  intro importer entry hasks
  have hreached := mem_of_reachable (mem_map_of_mem hsource) hclosed hasks.reaches
  obtain ⟨place, hplace, heq⟩ := mem_map.mp hreached
  rw [← below_inj.mp heq]
  exact hinside place hplace entry (heq ▸ hasks.declared)

/-- Names that lead down to something below both directories. -/
structure LeadsDown (d d' place : Location) : Prop where
  ne_nil : place ≠ []
  ne_dots : ∀ name ∈ place, name ≠ ".."
  fits : Fits d place
  fits' : Fits d' place

theorem LeadsDown.addresses {d place : Location} {tree' : FileTree} (h : LeadsDown d d' place)
    (hsame : tree.SameBelow d tree' d') : Addresses d place ∧ Addresses d' place :=
  ⟨⟨hsame.isDirectory.isName, hsame.isDirectory.ne_dots, h.ne_dots, h.ne_nil⟩,
    hsame.isDirectory'.isName, hsame.isDirectory'.ne_dots, h.ne_dots, h.ne_nil⟩

/-! ## Caches -/

namespace Cache

/-- Two documents as they were read that differ in their paths at most. -/
def SameRead (cached cached' : Cached) : Prop :=
  cached'.digest = cached.digest ∧ cached'.document = cached.document

variable {cache cache' : Cache} {tree tree' : FileTree} {path path' : Path}

/-- A cache that is right about a tree gives what the text of a file is split into. -/
theorem Agrees.matches_read {content : String} (h : cache.Agrees tree)
    (hpath : resolve tree.workdir path = path) (htext : tree.readText path = .ok content) :
    Matches (fun document cached => cached.digest = Sha256.hexOfText content ∧
        cached.document = document)
      (Document.split (some path.text) false content) (cache.read tree path).1 := by
  simp only [read, hpath, htext]
  cases hkept : (cache.get? path).filter fun c => c.digest == Sha256.hexOfText content with
  | some cached =>
    obtain ⟨hget, hdigest⟩ := filter_eq_some_iff.mp hkept
    rw [h path cached content hget htext (beq_iff_eq.mp hdigest)]
    exact .ok ⟨beq_iff_eq.mp hdigest, rfl⟩
  | none =>
    rw [parse]
    cases Document.split (some path.text) false content with
    | ok document => exact .ok ⟨rfl, rfl⟩
    | error e => exact .error e e

/-- **The same document is read below both directories**, from the cache or anew. -/
theorem read_relocated (h : cache.Agrees tree) (h' : cache'.Agrees tree')
    (hpath : resolve tree.workdir path = path) (hpath' : resolve tree'.workdir path' = path')
    (htext : ReadAlike (tree.readText path) (tree'.readText path')) :
    Matches SameRead (cache.read tree path).1 (cache'.read tree' path').1 := by
  generalize hread : tree.readText path = found at htext
  generalize hread' : tree'.readText path' = found' at htext
  cases htext with
  | error problem problem' =>
    simp only [read, hpath, hpath', hread, hread']
    exact .error _ _
  | ok content =>
    have hsplit := Document.matches_split (some path.text) (some path'.text) false content
    have hfound := h.matches_read hpath hread
    have hfound' := h'.matches_read hpath' hread'
    generalize Document.split (some path.text) false content = parts at hsplit hfound
    generalize Document.split (some path'.text) false content = parts' at hsplit hfound'
    generalize (cache.read tree path).1 = answer at hfound
    generalize (cache'.read tree' path').1 = answer' at hfound'
    cases hsplit with
    | error =>
      cases hfound
      cases hfound'
      exact .error _ _
    | ok heq =>
      obtain ⟨hdigest, hdocument⟩ | _ := hfound
      obtain ⟨hdigest', hdocument'⟩ | _ := hfound'
      exact .ok ⟨hdigest'.trans hdigest.symm, hdocument'.trans (heq ▸ hdocument.symm)⟩

end Cache

def File.Relocated (file file' : File) : Prop := ∃ path, file' = { file with path }

end Import

namespace Imports

open Import

/-- Imports that differ in the paths of their files at most. -/
def Relocated (i i' : Imports) : Prop :=
  ∃ files, Forall₂ File.Relocated i.files files ∧ i' = { i with files }

/-- Visits below two directories that have come equally far. -/
structure VisitRelocated (d d' : Location) (v v' : Visit) : Prop where
  visited : ∃ places : List Location,
    v.visited = places.map (below d) ∧ v'.visited = places.map (below d')
  imports : Relocated v.imports v'.imports

/-- The same files below two directories that look alike, where what a source imports stays
inside. -/
structure Relocation (tree : FileTree) (d : Location) (tree' : FileTree) (d' source : Location)
    (settings : Entries) : Prop where
  same : tree.SameBelow d tree' d'
  alike : LookAlike d d'
  leadsDown : LeadsDown d d' source
  inside : ∀ importer entry, Asks tree d source settings importer entry → entry.Inside d d' importer

/-- Moves that lead to the same place below two directories. -/
inductive MovedAlike (d d' : Location) : Move → Move → Prop
  | stay {v v' : Visit} (hv : VisitRelocated d d' v v') : MovedAlike d d' (.stay v) (.stay v')
  | descend {place : Location} {nested : List Entry} {v v' : Visit}
      (hplace : LeadsDown d d' place) (hv : VisitRelocated d d' v v') :
      MovedAlike d d' (.descend (below d place) nested v)
        (.descend (below d' place) nested v')

variable {tree tree' : FileTree} {d d' source importer place : Location} {settings : Entries}
  {entry : Entry} {v v' : Visit} {i i' : Imports} {file file' : File}

/-! ## What a document adds -/

protected theorem Relocated.refl (i : Imports) : Relocated i i :=
  ⟨i.files, forall₂_same.mpr fun file _ => ⟨file.path, rfl⟩, rfl⟩

theorem Relocated.addFile (h : Relocated i i') (hfile : File.Relocated file file') :
    Relocated (i.addFile file) (i'.addFile file') := by
  obtain ⟨files, hfiles, rfl⟩ := h
  exact ⟨files ++ [file'], rel_append hfiles (.cons hfile .nil), rfl⟩

theorem Relocated.defer (h : Relocated i i') (reference : String) :
    Relocated (i.defer reference) (i'.defer reference) := by
  obtain ⟨files, hfiles, rfl⟩ := h
  exact ⟨files, hfiles, rfl⟩

theorem Relocated.inline (h : Relocated i i') (text : String) :
    Relocated (i.inline text) (i'.inline text) := by
  obtain ⟨files, hfiles, rfl⟩ := h
  unfold inline
  split
  · exact ⟨files, hfiles, rfl⟩
  · exact ⟨files, hfiles, rfl⟩

theorem Relocated.declare (h : Relocated i i') (settings : Entries) :
    Matches Relocated (i.declare settings) (i'.declare settings) := by
  obtain ⟨files, hfiles, rfl⟩ := h
  refine Matches.bind_same _ fun permissions _ => ?_
  exact .ok ⟨files, hfiles, rfl⟩

theorem Relocated.addDocument (h : Relocated i i') (inlining : Bool)
    (hfile : File.Relocated file file') :
    Matches Relocated (i.addDocument inlining file) (i'.addDocument inlining file') := by
  obtain ⟨path, rfl⟩ := hfile
  refine (h.declare file.settings).bind ?_
  intro declared declared' _ _ hdeclared
  dsimp only
  split
  · exact .ok ((hdeclared.addFile ⟨path, rfl⟩).inline file.body)
  · exact .ok ((hdeclared.addFile ⟨path, rfl⟩).defer _)

theorem Relocated.addAgent (h : Relocated i i') (inlining : Bool) (stack stack' : List Path)
    (hfile : File.Relocated file file') :
    Matches Relocated (i.addAgent inlining stack file) (i'.addAgent inlining stack' file') := by
  obtain ⟨path, rfl⟩ := hfile
  obtain ⟨files, hfiles, rfl⟩ := h
  have hnamed : Relocated
      { i with agentFile := some file.shown, agentEntry := some file.entry.shown }
      { i with files, agentFile := some file.shown, agentEntry := some file.entry.shown } :=
    ⟨files, hfiles, rfl⟩
  unfold addAgent
  dsimp only
  cases inlining with
  | true => exact .error _ _
  | false =>
    cases i.agentFile with
    | some other => exact .error _ _
    | none =>
      simp only [Bool.false_eq_true, if_false]
      split
      · exact .ok ((hnamed.addFile ⟨path, rfl⟩).defer file.shown)
      · exact .ok ((hnamed.addFile ⟨path, rfl⟩).inline file.body)

/-! ## Steps of a visit -/

theorem target_relocated (h : tree.SameBelow d tree' d') (hinside : entry.Inside d d' importer)
    (himporter : importer ≠ []) (stack stack' : List Path) :
    Matches (fun p p' => ∃ place, LeadsDown d d' place ∧
        p = below d place ∧ p' = below d' place)
      (target tree (below d importer) stack entry)
      (target tree' (below d' importer) stack' entry) := by
  unfold target
  split
  · exact .error _ _
  · dsimp only
    rw [parent_below d himporter, parent_below d' himporter,
      join_below d hinside.relative, join_below d' hinside.relative]
    refine (h.isFile hinside.fits hinside.fits' hinside.staysInside).bind ?_
    rintro found _ hfound - rfl
    cases found with
    | false => exact .error _ _
    | true =>
      refine .ok ⟨Path.collapse (entry.way importer), ?_, ?_, ?_⟩
      · exact
          { ne_nil := h.isDirectory.collapse_ne_nil hinside.staysInside hfound
            ne_dots := fun name hname => (mem_collapse hname).2
            fits := hinside.fits.collapse
            fits' := hinside.fits'.collapse }
      · exact resolve_below _ h.isDirectory.ne_dots hinside.staysInside
      · exact resolve_below _ h.isDirectory'.ne_dots hinside.staysInside

theorem matches_importedText (stack stack' : List Path) (path path' : Path) (body : String)
    (entry : Entry) :
    Matches Eq (importedText stack path body entry) (importedText stack' path' body entry) := by
  unfold importedText
  split
  · exact .ok rfl
  · split
    · exact .ok rfl
    · exact .error _ _

theorem loadFile_relocated (h : Relocation tree d tree' d' source settings)
    (hplace : LeadsDown d d' place) (stack stack' : List Path) {cache cache' : Cache}
    (hagrees : cache.Agrees tree) (hagrees' : cache'.Agrees tree') (entry : Entry) :
    Matches (fun r r' => File.Relocated r.1 r'.1)
      (loadFile tree (below d source.dropLast) stack cache (below d place) entry)
      (loadFile tree' (below d' source.dropLast) stack' cache' (below d' place)
        entry) := by
  obtain ⟨ha, ha'⟩ := hplace.addresses h.same
  have hshown := h.alike.shownPath_eq tree.workdir tree'.workdir ha ha'
    fun name hname => h.leadsDown.ne_dots name (mem_of_mem_dropLast hname)
  have hread := Cache.read_relocated hagrees hagrees' (ha.resolve_eq _) (ha'.resolve_eq _)
    (h.same.readText hplace.fits hplace.fits' (staysInside_of_forall_ne [] hplace.ne_dots))
  unfold loadFile
  generalize cache.read tree (below d place) = r at hread ⊢
  generalize cache'.read tree' (below d' place) = r' at hread ⊢
  obtain ⟨outcome, after⟩ := r
  obtain ⟨outcome', after'⟩ := r'
  refine hread.bind ?_
  rintro cached cached' - - ⟨hdigest, hdocument⟩
  rw [hdocument, hdigest, hshown, h.alike.isAgentFile_eq place hplace.ne_nil]
  refine (matches_importedText stack stack' _ _ cached.document.body entry).bind ?_
  rintro text _ - - rfl
  refine .ok ⟨below d' place, ?_⟩
  dsimp only

theorem visitElsewhere?_relocated (hv : VisitRelocated d d' v v') (entry : Entry) :
    Rel (VisitRelocated d d') (visitElsewhere? v entry) (visitElsewhere? v' entry) := by
  obtain ⟨hvisited, files, hfiles, himports⟩ := hv
  unfold visitElsewhere?
  rw [himports]
  split
  · refine .some ⟨hvisited, ?_⟩
    dsimp only
    split
    · exact ⟨files, hfiles, rfl⟩
    · exact ⟨files, hfiles, rfl⟩
  · split
    · refine .some ⟨hvisited, ?_⟩
      dsimp only
      split
      · exact ⟨files, hfiles, rfl⟩
      · exact ⟨files, hfiles, rfl⟩
    · exact .none

theorem contains_map_below (d : Location) (places : List Location) (place : Location) :
    (places.map (below d)).contains (below d place) = places.contains place := by
  rw [Bool.eq_iff_iff, contains_iff_mem, contains_iff_mem, List.mem_map]
  constructor
  · rintro ⟨other, hmem, heq⟩
    exact below_inj.mp heq ▸ hmem
  · intro hmem
    exact ⟨place, hmem, rfl⟩

/-- What an entry does that leads to a document not met before: the last case of `move`. -/
def enter (tree : FileTree) (base : Path) (inlining : Bool) (stack : List Path) (v : Visit)
    (path : Path) (entry : Entry) : Outcome Move := do
  let (file, cache) ← loadFile tree base stack v.cache path entry
  let visited := v.visited ++ [path]
  if file.isAgent then
    let imports ← v.imports.addAgent inlining stack file
    .ok (.stay { cache, visited, imports })
  else
    let imports ← v.imports.addDocument inlining file
    let nested ← Entry.parseAll (getD file.settings "imports")
    .ok (.descend path nested { cache, visited, imports })

theorem enter_relocated (h : Relocation tree d tree' d' source settings)
    (hplace : LeadsDown d d' place) (inlining : Bool) (stack stack' : List Path)
    (hv : VisitRelocated d d' v v') (hagrees : v.cache.Agrees tree)
    (hagrees' : v'.cache.Agrees tree') (entry : Entry) :
    Matches (MovedAlike d d')
      (enter tree (below d source.dropLast) inlining stack v (below d place) entry)
      (enter tree' (below d' source.dropLast) inlining stack' v' (below d' place)
        entry) := by
  refine (loadFile_relocated h hplace stack stack' hagrees hagrees' entry).bind ?_
  rintro ⟨file, after⟩ ⟨file', after'⟩ - - hfile
  have hmet : ∀ {imports imports'}, Relocated imports imports' → VisitRelocated d d'
        { cache := after, visited := v.visited ++ [below d place], imports }
        { cache := after', visited := v'.visited ++ [below d' place],
          imports := imports' } := by
    intro imports imports' himports
    obtain ⟨visited, hvisited, hvisited'⟩ := hv.visited
    exact ⟨⟨visited ++ [place], by simp [hvisited], by simp [hvisited']⟩, himports⟩
  have hparts : file'.isAgent = file.isAgent ∧ file'.settings = file.settings := by
    obtain ⟨path', rfl⟩ := hfile
    exact ⟨rfl, rfl⟩
  dsimp only
  rw [hparts.1, hparts.2]
  cases hagent : file.isAgent with
  | true =>
    refine (hv.imports.addAgent inlining stack stack' hfile).bind ?_
    intro imports imports' _ _ himports
    exact .ok (.stay (hmet himports))
  | false =>
    refine (hv.imports.addDocument inlining hfile).bind ?_
    intro imports imports' _ _ himports
    exact Matches.bind_same _ fun nested _ => .ok (.descend hplace (hmet himports))

/-- **An entry does the same to a visit below both directories.** -/
theorem move_relocated (h : Relocation tree d tree' d' source settings)
    (himporter : importer ≠ []) {places : List Location} (hasked : Asked tree (below d source)
      settings (below d importer) (places.map (below d)) entry) (inlining : Bool)
    (hv : VisitRelocated d d' v v') (hagrees : v.cache.Agrees tree)
    (hagrees' : v'.cache.Agrees tree') :
    Matches (MovedAlike d d')
      (move tree (below d source.dropLast) inlining (below d importer)
        (places.map (below d)) v entry)
      (move tree' (below d' source.dropLast) inlining (below d' importer)
        (places.map (below d')) v' entry) := by
  have helsewhere := visitElsewhere?_relocated hv entry
  have hlocal : visitElsewhere? v entry = none → entry.isLocal := isLocal_of_visitElsewhere?
  unfold move
  generalize visitElsewhere? v entry = elsewhere at helsewhere hlocal
  generalize visitElsewhere? v' entry = elsewhere' at helsewhere
  cases helsewhere with
  | some hafter => exact .ok (.stay hafter)
  | none =>
    have hasks : Asks tree d source settings importer entry :=
      ⟨hasked.reachable, hasked.declared, hlocal rfl⟩
    refine (target_relocated h.same (h.inside importer entry hasks) himporter _ _).bind ?_
    rintro _ _ - - ⟨place, hplace, rfl, rfl⟩
    obtain ⟨visited, hvisited, hvisited'⟩ := hv.visited
    have hsame : v'.visited.contains (below d' place) =
        v.visited.contains (below d place) := by
      rw [hvisited, hvisited', contains_map_below, contains_map_below]
    rw [hsame, contains_map_below, contains_map_below]
    cases places.contains place with
    | true => exact .error _ _
    | false =>
      cases v.visited.contains (below d place) with
      | true => exact .ok (.stay hv)
      | false => exact enter_relocated h hplace inlining _ _ hv hagrees hagrees' entry

/-! ## Visits -/

/-- **A visit that stays inside goes the same way below both directories.** -/
theorem visit_relocated (h : Relocation tree d tree' d' source settings) (inlining : Bool)
    (depth : Nat) {entries : List Entry}
    (hentries : Entry.parseAll (getD settings "imports") = .ok entries)
    (hv : VisitRelocated d d' v v') (hagrees : v.cache.Agrees tree)
    (hagrees' : v'.cache.Agrees tree') :
    Paired (fun v v' => v.cache.Agrees tree ∧ v'.cache.Agrees tree' ∧ VisitRelocated d d' v v')
      (fun _ _ => True)
      (visit tree (below d source.dropLast) inlining depth (below d source)
        [below d source] entries v)
      (visit tree' (below d' source.dropLast) inlining depth (below d' source)
        [below d' source] entries v') := by
  -- The ways in the two trees grow by the same names, so they stay one list of places.
  refine visit_paired (A := fun importer stack importer' stack' entry =>
      Asked tree (below d source) settings importer stack entry ∧
      ∃ place places, place ≠ [] ∧ importer = below d place ∧ importer' = below d' place ∧
        stack = places.map (below d) ∧ stack' = places.map (below d')) ?_
    (fun entry hentry => ⟨.start hentries entry hentry, source, [source], h.leadsDown.ne_nil,
      rfl, rfl, rfl, rfl⟩) ⟨hagrees, hagrees', hv⟩
  rintro _ _ _ _ entry v v' ⟨hasked, place, places, hne, rfl, rfl, rfl, rfl⟩
    ⟨hagrees, hagrees', hv⟩
  have halike := move_relocated h hne hasked inlining hv hagrees hagrees'
  generalize hstep : move tree _ inlining _ _ v entry = moved at halike
  generalize hstep' : move tree' _ inlining _ _ v' entry = moved' at halike
  cases halike with
  | error => exact .error trivial
  | ok halike =>
    have hmoved := moved_of_move hstep
    have hafter := hmoved.agrees hagrees
    have hafter' := (moved_of_move hstep').agrees hagrees'
    cases halike with
    | stay hv => exact .stay ⟨hafter, hafter', hv⟩
    | @descend next nested v₁ v₁' hnext hv =>
      refine .descend ⟨hafter, hafter', hv⟩ fun e he => ⟨hmoved.asks hasked hagrees e he, next,
        places ++ [next], hnext.ne_nil, rfl, rfl, ?_, ?_⟩
      · rw [map_append, map_singleton]
      · rw [map_append, map_singleton]

/-- **The imports of a source that stay inside are the same below both directories.** -/
theorem resolve_relocated (h : Relocation tree d tree' d' source settings) (inlining : Bool) :
    Matches (fun r r' => Relocated r.imports r'.imports)
      (resolve tree .empty inlining (below d source) settings)
      (resolve tree' .empty inlining (below d' source) settings) := by
  obtain ⟨ha, ha'⟩ := h.leadsDown.addresses h.same
  cases hparse : Entry.parseAll (getD settings "imports") with
  | error e =>
    rw [resolve_of_parseAll_error tree .empty inlining _ hparse,
      resolve_of_parseAll_error tree' .empty inlining _ hparse]
    exact .error e e
  | ok entries =>
    have hstart : VisitRelocated d d' (started .empty) (started .empty) :=
      ⟨⟨[], rfl, rfl⟩, .refl _⟩
    -- Both visits are let go as deep as either needs.
    obtain ⟨outcome, houtcome, hresolve⟩ := exists_visit .empty inlining
      (ha.resolve_eq tree.workdir) hparse
      (show tree.nodes.length < tree.nodes.length + tree'.nodes.length + 1 by omega)
    obtain ⟨outcome', houtcome', hresolve'⟩ := exists_visit .empty inlining
      (ha'.resolve_eq tree'.workdir) hparse
      (show tree'.nodes.length < tree.nodes.length + tree'.nodes.length + 1 by omega)
    have hvisit := visit_relocated h inlining (tree.nodes.length + tree'.nodes.length + 1) hparse
      hstart (Cache.agrees_empty tree) (Cache.agrees_empty tree')
    rw [parent_below d h.leadsDown.ne_nil] at houtcome
    rw [parent_below d' h.leadsDown.ne_nil] at houtcome'
    rw [houtcome, houtcome'] at hvisit
    rw [hresolve, hresolve']
    cases hvisit with
    | error => exact .error _ _
    | ok hv => exact .ok hv.2.2.imports

end Imports

end FlowLock
