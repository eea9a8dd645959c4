import FlowLock.Proofs.Compile.Disk
import FlowLock.Proofs.Import.Relocate
import FlowLock.Proofs.LockFile.RoundTrip

/-!
# Lock files and the directory of a repository

The files of a repository can be below one directory or another.  What a compile takes from a
path is the name of the source and what lock files show of the source and its imports, so below
directories that look alike the same lock files are made.  The header shows the source, so below
directories that do not look alike they are different.
-/

namespace FlowLock

open Outcome Import List Path LockFile FileTree Document Workflow Text

/-! ## Workflows -/

namespace Imports

theorem Relocated.digest_eq {i i' : Imports} (h : Relocated i i') (settings : Entries)
    (body : String) : digest settings (some i') body = digest settings (some i) body := by
  obtain ⟨files, hfiles, rfl⟩ := h
  have hlisted : files.map (fun f => Value.list [.str f.shown, .str f.digest]) =
      i.files.map fun f => Value.list [.str f.shown, .str f.digest] := by
    refine map_eq_of_forall₂ ?_ hfiles
    rintro file _ ⟨path, rfl⟩
    rfl
  unfold digest payload
  dsimp only
  rw [hlisted]

end Imports

namespace Workflow

/-- Workflows that differ in where their documents are at most; the name of the source counts. -/
def Relocated (w w' : Workflow) : Prop :=
  ∃ source files, source.stem = w.source.stem ∧
    w' = { w with source, imports := { w.imports with files } }

variable {w w' : Workflow}

theorem build_relocated {source source' : Path} (hstem : source'.stem = source.stem)
    {i i' : Imports} (h : Imports.Relocated i i') (settings : Entries) (body digest : String)
    (mode : ActionMode) :
    Matches Relocated (build settings body source i mode digest)
      (build settings body source' i' mode digest) := by
  obtain ⟨files, -, rfl⟩ := h
  have hname : nameOf settings body source' = nameOf settings body source := by
    unfold nameOf
    rw [hstem]
  unfold build
  dsimp only
  rw [hname]
  -- No step looks at a path, so all of them have the same outcome.
  iterate 19 refine Matches.bind_same _ fun _ _ => ?_
  exact .ok ⟨source', files, hstem, rfl⟩

namespace Relocated

variable (h : Relocated w w') (engine : Engine) (ctx : Context)

include h

/-- **A workflow is compiled the same, wherever its documents are.** -/
theorem compiled_eq : w'.compiled engine ctx = w.compiled engine ctx := by
  obtain ⟨source, files, hstem, rfl⟩ := h
  unfold compiled jobs activationJob outputJobs conclusionJob? id
  rw [hstem]
  rfl

end Relocated

end Workflow

/-! ## Writing -/

namespace LockFile

variable {tree tree' : FileTree} {d d' place : Location}

theorem kindAt_put_freshLocation {location : Location} (h : tree.IsDirectory d)
    (hplace : ∀ name ∈ place, name ≠ "..")
    (hlocate : tree.locate (below d (place ++ [temporaryName])) = .ok location)
    (stem : String) (bytes : List UInt8) :
    (tree.put (freshLocation tree (d ++ place)) bytes).kindAt (d ++ (place ++ [stem ++ ending])) =
      tree.kindAt (d ++ (place ++ [stem ++ ending])) := by
  rw [below, ← append_assoc] at hlocate
  rw [← append_assoc]
  refine kindAt_put_of_ne ?_ (freshLocation_ne tree (d ++ place) stem)
  intro p hp hne
  obtain hp | hp := prefix_concat_iff.mp hp
  · exact absurd hp hne
  · refine kindAt_of_locate hlocate ?_ hp
    exact forall_mem_append.mpr ⟨forall_mem_append.mpr ⟨h.ne_dots, hplace⟩, by decide⟩

theorem write_relocated (h : tree.SameBelow d tree' d') (trouble : Trouble)
    (hplace : ∀ name ∈ place, name ≠ "..") (hfits : Fits d (place ++ [temporaryName]))
    (hfits' : Fits d' (place ++ [temporaryName])) (stem content : String) :
    Matches (fun _ _ => True)
      (write trouble tree (below d (place ++ [stem ++ ending])) content).1
      (write trouble tree' (below d' (place ++ [stem ++ ending])) content).1 := by
  have hd := h.isDirectory
  have hd' := h.isDirectory'
  have hne : place ++ [stem ++ ending] ≠ [] := by simp
  have hdown : ∀ name ∈ place ++ [stem ++ ending], name ≠ ".." :=
    forall_mem_append.mpr ⟨hplace, forall_mem_singleton.mpr (append_ending_ne_dots stem)⟩
  have htemporary : ∀ d : Location, (below d place).join
      { root := "", names := [temporaryName] } = below d (place ++ [temporaryName]) :=
    fun d => join_below d rfl
  have hfound := h.locate hfits hfits' (staysInside_of_forall_ne []
    (forall_mem_append.mpr ⟨hplace, by decide⟩))
  have hname : (below d' (place ++ [stem ++ ending])).name =
      (below d (place ++ [stem ++ ending])).name := by
    rw [name_below d hne, name_below d' hne]
  unfold write
  dsimp only
  rw [parent_below d hne, parent_below d' hne, dropLast_concat,
    resolve_below_of_forall_ne _ hd.ne_dots hplace, resolve_below_of_forall_ne _ hd'.ne_dots hplace,
    resolve_below_of_forall_ne _ hd.ne_dots hdown, resolve_below_of_forall_ne _ hd'.ne_dots hdown,
    htemporary, htemporary]
  generalize hlocate : tree.locate _ = found at hfound
  generalize hlocate' : tree'.locate _ = found' at hfound
  cases hfound with
  | tooLong shown shown' => exact .error _ _
  | nowhere hp hp' => exact .error _ _
  | place rest =>
    dsimp only [attempt]
    cases trouble .create with
    | some problem => exact .error _ _
    | none =>
      dsimp only
      split
      · exact .error _ _
      · cases trouble .fill with
        | some problem => exact .error _ _
        | none =>
          dsimp only
          cases trouble .rename with
          | some problem => exact .error _ _
          | none =>
            dsimp only [rename, names_below]
            rw [h.hasChar_eq, hname, put_put, put_put,
              kindAt_put_freshLocation hd hplace hlocate,
              kindAt_put_freshLocation hd' hplace hlocate', h.kindAt]
            split_ifs with hbad hlong hdirectory
            · exact .error _ _
            · exact .error _ _
            · exact .error _ _
            · exact .ok trivial

end LockFile

/-! ## Reading and rendering -/

namespace Compile

structure SameLock (r r' : Result) : Prop where
  content : r'.content = r.content
  warnings : r'.warnings = r.warnings
  written : r'.written = r.written

/-- The same files are below two directories that look alike, and what a source imports stays
inside. -/
structure Relocation (tree : FileTree) (d : Location) (tree' : FileTree) (d' source : Location) :
    Prop where
  same : tree.SameBelow d tree' d'
  alike : LookAlike d d'
  leadsDown : LeadsDown d d' source
  inside : ∀ document, read tree (below d source) true = .ok document →
    ∀ importer entry, Asks tree d source document.settings importer entry →
      entry.Inside d d' importer

variable {tree tree' : FileTree} {d d' source : Location}

theorem stem_below (d d' : Location) (h : source ≠ []) :
    (below d' source).stem = (below d source).stem := by
  rw [stem, stem, name_below d h, name_below d' h]

theorem isSource_below (d d' : Location) (h : source ≠ []) :
    isSource (below d' source) = isSource (below d source) := by
  rw [isSource, isSource, suffix, suffix, name_below d h, name_below d' h]

theorem read_relocated (h : tree.SameBelow d tree' d') (hsource : LeadsDown d d' source) :
    Matches Eq (read tree (below d source) true)
      (read tree' (below d' source) true) := by
  have htext := h.readText hsource.fits hsource.fits'
    (staysInside_of_forall_ne [] hsource.ne_dots)
  unfold Document.read
  generalize tree.readText (below d source) = found at htext
  generalize tree'.readText (below d' source) = found' at htext
  cases htext with
  | error problem problem' => exact .error _ _
  | ok content => exact matches_split _ _ true content

theorem Relocation.workflowOf (h : Relocation tree d tree' d' source) (request : Request) :
    Matches Relocated (workflowOf tree request (below d source))
      (workflowOf tree' request (below d' source)) := by
  refine (read_relocated h.same h.leadsDown).bind ?_
  rintro document _ hread - rfl
  have himports : Imports.Relocation tree d tree' d' source document.settings :=
    ⟨h.same, h.alike, h.leadsDown, h.inside document hread⟩
  refine (Imports.resolve_relocated himports _).bind ?_
  intro resolution resolution' _ _ hresolution
  dsimp only
  rw [hresolution.digest_eq]
  refine Matches.bind_same _ fun digest _ => ?_
  refine (build_relocated (stem_below d d' h.leadsDown.ne_nil) hresolution
    document.settings document.body digest .dev).bind ?_
  rintro w _ - - ⟨place, files, hstem, rfl⟩
  refine Matches.bind_same _ fun mode _ => ?_
  exact .ok ⟨place, files, hstem, rfl⟩

/-- **The lock file of a source is the same below directories that look alike.** -/
theorem Relocation.render (h : Relocation tree d tree' d' source) (request : Request) :
    Matches SameLock (render tree request (below d source))
      (render tree' request (below d' source)) := by
  obtain ⟨ha, ha'⟩ := h.leadsDown.addresses h.same
  have hshown := shownSource_eq h.alike tree.workdir tree'.workdir ha ha'
  unfold Compile.render
  rw [isSource_below d d' h.leadsDown.ne_nil, hshown]
  split
  · exact .error _ _
  · refine (h.workflowOf request).bind ?_
    intro w w' _ _ hw
    have hcompiled := hw.compiled_eq
    obtain ⟨place, files, -, rfl⟩ := hw
    refine Matches.bind_same _ fun engine _ => ?_
    refine Matches.bind_same _ fun warnings _ => ?_
    rw [hcompiled]
    refine Matches.bind_same _ fun compiled _ => ?_
    dsimp only
    split
    · exact .ok ⟨rfl, rfl, rfl⟩
    · exact .error _ _

theorem pathOf_below (d : Location) (h : source ≠ []) : pathOf (below d source) =
      below d (source.dropLast ++ [(below d source).stem ++ ending]) := by
  rw [pathOf, withName, names_below, dropLast_append_of_ne_nil h, append_assoc]
  rfl

/-- The temporary file beside a source can be looked up below both directories. -/
structure HasRoom (d d' source : Location) : Prop where
  fits : Fits d (source.dropLast ++ [temporaryName])
  fits' : Fits d' (source.dropLast ++ [temporaryName])

/-- **A compile has the same result below directories that look alike.** -/
theorem Relocation.run (h : Relocation tree d tree' d' source) (trouble : Trouble)
    (request : Request) (hroom : request.writes → HasRoom d d' source) :
    Matches SameLock (run trouble tree request (below d source)).1
      (run trouble tree' request (below d' source)).1 := by
  have hlocks := h.render request
  unfold Compile.run
  generalize hrender : Compile.render tree request (below d source) = rendered at hlocks
  generalize hrender' : Compile.render tree' request (below d' source) = rendered' at hlocks
  cases hlocks with
  | error e e' => exact .error e e'
  | @ok r r' hsame =>
    dsimp only
    cases hwrites : request.writes with
    | false => exact .ok hsame
    | true =>
      obtain ⟨hfits, hfits'⟩ := hroom hwrites
      have hwrite := write_relocated h.same trouble
        (fun name hname => h.leadsDown.ne_dots name (mem_of_mem_dropLast hname)) hfits hfits'
        (below d source).stem r.content
      rw [(lockPath_of_render hrender).1, (lockPath_of_render hrender').1, hsame.content,
        pathOf_below d h.leadsDown.ne_nil, pathOf_below d' h.leadsDown.ne_nil,
        stem_below d d' h.leadsDown.ne_nil]
      generalize write trouble tree _ r.content = done at hwrite
      generalize write trouble tree' _ r.content = done' at hwrite
      obtain ⟨outcome, after⟩ := done
      obtain ⟨outcome', after'⟩ := done'
      cases hwrite with
      | error e e' => exact .error e e'
      | ok _ => exact .ok ⟨rfl, hsame.warnings, rfl⟩

end Compile

/-! ## What the header shows -/

namespace LockFile

/-- The lines of a header before the one that names the source. -/
def Header.opening (version description : String) : List String :=
  ["# This file was automatically generated by awc (agentic-workflow-compiler " ++ version ++
      "). DO NOT EDIT.",
   "#",
   "# To update this file, edit the source workflow and run:",
   "#   awc compile"] ++
  (if description.isEmpty then []
   else "#" :: (wideLines (trim description)).map commentLine) ++ ["#"]

theorem toList_render_of_source {h : Header} (hne : h.source ≠ "") (v : Value) :
    ∃ rest, (render h v).toList =
      Yaml.lineText ((Header.opening h.version h.description).map String.toList) ++
        ("# Source: ".toList ++ (h.source.toList ++ '\n' :: rest)) := by
  have hlines : ∃ after, h.lines =
      Header.opening h.version h.description ++ ("# Source: " ++ h.source) :: after := by
    refine ⟨(if h.workflowVersion.isEmpty then []
      else ["# Workflow version: " ++ h.workflowVersion]) ++
        ["#", "# frontmatter-hash: " ++ h.hash, ""], ?_⟩
    have hshown : h.source.isEmpty = false := by simpa using hne
    rw [Header.lines, Header.opening, hshown, if_neg Bool.false_ne_true]
    simp only [append_assoc, cons_append, nil_append]
  obtain ⟨after, hafter⟩ := hlines
  refine ⟨Yaml.lineText (after.map String.toList) ++ (Yaml.dump v).toList, ?_⟩
  rw [toList_render, hafter, map_append, map_cons, Yaml.lineText, flatMap_append,
    flatMap_cons, String.toList_append]
  simp only [append_assoc, cons_append, nil_append]
  rfl

/-- **Equal lock files name the same source**, when their headers otherwise start alike. -/
theorem source_eq_of_render_eq
    {hash hash' version source source' description number number' : String} {v v' : Value}
    (hne : source ≠ "") (hne' : source' ≠ "") (hline : '\n' ∉ source.toList)
    (hline' : '\n' ∉ source'.toList)
    (heq : render ⟨hash', version, source', description, number'⟩ v' =
      render ⟨hash, version, source, description, number⟩ v) : source' = source := by
  obtain ⟨rest, hrest⟩ :=
    @toList_render_of_source ⟨hash, version, source, description, number⟩ hne v
  obtain ⟨rest', hrest'⟩ :=
    @toList_render_of_source ⟨hash', version, source', description, number'⟩ hne' v'
  rw [heq, hrest] at hrest'
  have hsources := append_cancel_left (append_cancel_left hrest')
  have hcut := congrArg (takeWhile (· != '\n')) hsources
  rw [takeWhile_append_cons hline, takeWhile_append_cons hline'] at hcut
  exact String.toList_inj.mp hcut.symm

end LockFile

namespace Compile

variable {tree tree' : FileTree} {d d' source : Location} {request : Request} {path : Path}

theorem description_of_workflowOf {w : Workflow} (h : workflowOf tree request path = .ok w) :
    ∃ document, read tree path true = .ok document ∧
      Setting.text (Entries.getD document.settings "description") "description" "" =
        .ok w.description := by
  simp only [workflowOf, bind_eq_ok] at h
  obtain ⟨document, hread, resolution, -, digest, -, built, hbuilt, mode, -, h⟩ := h
  cases h
  exact ⟨document, hread, (builtFrom_of_build hbuilt).description⟩

theorem name_ne_empty_of_isSource (h : isSource path) : path.name ≠ "" := by
  intro hempty
  rw [isSource, suffix, hempty] at h
  exact absurd h (by decide)

/-- **The same lock file below two directories shows the same of them.** -/
theorem fromGitHub_eq_of_render {r r' : Result} (hsame : tree.SameBelow d tree' d')
    (hsource : LeadsDown d d' source) (hplain : ∀ name ∈ d ++ d' ++ source, '\n' ∉ name.toList)
    (h : render tree request (below d source) = .ok r)
    (h' : render tree' request (below d' source) = .ok r') (heq : r'.content = r.content) :
    fromGitHub d' = fromGitHub d := by
  obtain ⟨w, engine, warnings, more, graph, hname, hw, -, -, -, -, rfl⟩ := render_eq_ok.mp h
  obtain ⟨w', engine', warnings', more', graph', hname', hw', -, -, -, -, rfl⟩ := render_eq_ok.mp h'
  have hdescription : w'.description = w.description := by
    obtain ⟨document, hread, htext⟩ := description_of_workflowOf hw
    obtain ⟨document', hread', htext'⟩ := description_of_workflowOf hw'
    have hdocuments := read_relocated hsame hsource
    rw [hread, hread'] at hdocuments
    cases hdocuments with
    | ok hdocument =>
      rw [← hdocument, htext] at htext'
      exact (Except.ok.inj htext').symm
  obtain ⟨ha, ha'⟩ := hsource.addresses hsame
  have hline := not_mem_shownSource tree.workdir ha (by decide) fun name hname =>
    hplain name (by grind)
  have hline' := not_mem_shownSource tree'.workdir ha' (by decide) fun name hname =>
    hplain name (by grind)
  have hne := shownSource_ne_empty tree.workdir ha (name_ne_empty_of_isSource hname)
  have hne' := shownSource_ne_empty tree'.workdir ha' (name_ne_empty_of_isSource hname')
  dsimp only [headerOf] at heq
  rw [hdescription] at heq
  have hshown := source_eq_of_render_eq hne hne' hline hline' heq
  exact fromGitHub_eq_of_shownSource_eq tree'.workdir tree.workdir ha' ha hshown

theorem render_of_run {trouble : Trouble} {r : Result}
    (h : (run trouble tree request path).1 = .ok r) :
    ∃ rendered, render tree request path = .ok rendered ∧ r.content = rendered.content := by
  have hran := ran trouble tree request path
  generalize run trouble tree request path = outcome at h hran
  cases hran with
  | failed => cases h
  | rendered _ hrender =>
    cases h
    exact ⟨_, hrender, rfl⟩
  | written _ hrender _ =>
    cases h
    exact ⟨_, hrender, rfl⟩

/-- **Lock files depend on the directory of a repository by what they show of it.**

The same files are below two directories, and what a source imports stays inside, along relative
paths that are not too long to be looked up.  Below directories that look alike, a compile
succeeds when it succeeds below the other, with the same lock file and the same warnings.
Directories without a backslash look alike just when they have the same names from their first
`.github` on.  If they do not have the same names from there on, lock files below them are
different. -/
theorem lock_files_show_directory (trouble : Trouble) (request : Request)
    (hsame : tree.SameBelow d tree' d') (hsource : LeadsDown d d' source)
    (hroom : request.writes = true → HasRoom d d' source)
    (hinside : ∀ document, read tree (below d source) true = .ok document →
      ∀ importer entry, Asks tree d source document.settings importer entry →
        entry.Inside d d' importer) :
    (LookAlike d d' →
      Matches SameLock (run trouble tree request (below d source)).1
        (run trouble tree' request (below d' source)).1) ∧
    ((∀ name ∈ d ++ d', '\\' ∉ name.toList) →
      (LookAlike d d' ↔ fromGitHub d' = fromGitHub d)) ∧
    ((∀ name ∈ d ++ d' ++ source, '\n' ∉ name.toList) → fromGitHub d' ≠ fromGitHub d →
      ∀ r r', (run trouble tree request (below d source)).1 = .ok r →
        (run trouble tree' request (below d' source)).1 = .ok r' →
        r'.content ≠ r.content) := by
  refine ⟨?_, ?_, ?_⟩
  · intro halike
    have hrelocation : Relocation tree d tree' d' source := ⟨hsame, halike, hsource, hinside⟩
    exact hrelocation.run trouble request hroom
  · intro hplain
    obtain ⟨hplain, hplain'⟩ := forall_mem_append.mp hplain
    constructor
    · exact LookAlike.fromGitHub_eq
    · exact lookAlike_of_fromGitHub_eq hsame.isDirectory.isName hsame.isDirectory'.isName hplain
        hplain'
  · intro hplain hne r r' hrun hrun' heq
    obtain ⟨rendered, hrender, hcontent⟩ := render_of_run hrun
    obtain ⟨rendered', hrender', hcontent'⟩ := render_of_run hrun'
    rw [hcontent, hcontent'] at heq
    exact hne (fromGitHub_eq_of_render hsame hsource hplain hrender hrender' heq)

def movedFiles : List (Location × FileNode) :=
  [([".github", "workflows", "a.md"],
    .file (Utf8.encode "---\non: push\nimports: [../shared/b.md]\n---\nHi\n")),
   ([".github", "shared", "b.md"], .file (Utf8.encode "There\n"))]

def movedSource : Location := [".github", "workflows", "a.md"]

theorem exists_run_moved :
    ∃ r, (run noTrouble (.laidOut ["home", "repo"] movedFiles) { writes := false }
      (below ["home", "repo"] movedSource)).1 = .ok r := by
  decide +kernel

/-- The workflow compiles in a home directory, so it compiles elsewhere, to the same lock file; and
where lock files are to be written, they are written in both places or in neither. -/
theorem lock_files_show_directory_moved :
    (∃ r r',
      (run noTrouble (.laidOut ["home", "repo"] movedFiles) { writes := false }
        (below ["home", "repo"] movedSource)).1 = .ok r ∧
      (run noTrouble (.laidOut ["srv"] movedFiles) { writes := false }
        (below ["srv"] movedSource)).1 = .ok r' ∧ r'.content = r.content) ∧
    Matches SameLock
      (run noTrouble (.laidOut ["home", "repo"] movedFiles) {}
        (below ["home", "repo"] movedSource)).1
      (run noTrouble (.laidOut ["srv"] movedFiles) {}
        (below ["srv"] movedSource)).1 := by
  have hsame : SameBelow (.laidOut ["home", "repo"] movedFiles) ["home", "repo"]
      (.laidOut ["srv"] movedFiles) ["srv"] :=
    sameBelow_laidOut (isDirectory_laidOut (by decide) (by decide))
      (isDirectory_laidOut (by decide) (by decide))
  have hsource : LeadsDown ["home", "repo"] ["srv"] movedSource :=
    ⟨by decide, by decide, by decide, by decide⟩
  let d : Location := ["home", "repo"]
  let tree := laidOut d movedFiles
  let root := below d movedSource
  let places := movedFiles.map (·.1)
  -- The two documents are all that is reached, and what they import stays inside.
  have hinside : ∀ document, read tree root true = .ok document → ∀ importer entry,
      Asks tree d movedSource document.settings importer entry → entry.Inside d ["srv"] importer := by
    intro document hread
    obtain ⟨_, hfound, hclosed, hinside⟩ : ∃ document, read tree root true = .ok document ∧
        (∀ p ∈ places.map (below d), ∀ q ∈ Import.successors tree root document.settings p,
          q ∈ places.map (below d)) ∧
        ∀ place ∈ places, ∀ entry ∈ declaredAt tree root document.settings (below d place),
          entry.Inside d ["srv"] place := by decide +kernel
    cases hread.symm.trans hfound
    exact inside_of_closed (by decide) hclosed hinside
  have halike : LookAlike ["home", "repo"] ["srv"] :=
    lookAlike_of_fromGitHub_eq (by decide) (by decide) (by decide) (by decide) (by decide)
  constructor
  · obtain ⟨r, hr⟩ := exists_run_moved
    have hlocks := (lock_files_show_directory noTrouble { writes := false } hsame hsource
      (fun hwrites => Bool.noConfusion hwrites) hinside).1 halike
    obtain ⟨r', hr', hlock⟩ := hlocks.lifts r hr
    exact ⟨r, r', hr, hr', hlock.content⟩
  · exact (lock_files_show_directory noTrouble {} hsame hsource
      (fun _ => ⟨by decide, by decide⟩) hinside).1 halike

/-- Below a directory that is itself in a `.github`, lock files are different. -/
theorem lock_files_differ_in_gitHub :
    ∃ r r',
      (run noTrouble (.laidOut ["home", "repo"] movedFiles) { writes := false }
        (below ["home", "repo"] movedSource)).1 = .ok r ∧
      (run noTrouble (.laidOut ["repo", ".github", "co"] movedFiles) { writes := false }
        (below ["repo", ".github", "co"] movedSource)).1 = .ok r' ∧
      r'.content ≠ r.content := by
  have hsame : SameBelow (.laidOut ["home", "repo"] movedFiles) ["home", "repo"]
      (.laidOut ["repo", ".github", "co"] movedFiles) ["repo", ".github", "co"] :=
    sameBelow_laidOut (isDirectory_laidOut (by decide) (by decide))
      (isDirectory_laidOut (by decide) (by decide))
  have hsource : LeadsDown ["home", "repo"] ["repo", ".github", "co"] movedSource :=
    ⟨by decide, by decide, by decide, by decide⟩
  obtain ⟨r, hr⟩ := exists_run_moved
  obtain ⟨r', hr'⟩ : ∃ r, (run noTrouble (.laidOut ["repo", ".github", "co"] movedFiles)
      { writes := false } (below ["repo", ".github", "co"] movedSource)).1 = .ok r := by
    decide +kernel
  refine ⟨r, r', hr, hr', fun heq => ?_⟩
  obtain ⟨rendered, hrender, hcontent⟩ := render_of_run hr
  obtain ⟨rendered', hrender', hcontent'⟩ := render_of_run hr'
  rw [hcontent, hcontent'] at heq
  have hshown := fromGitHub_eq_of_render hsame hsource (by decide) hrender hrender' heq
  exact absurd hshown (by decide)

end Compile

end FlowLock
