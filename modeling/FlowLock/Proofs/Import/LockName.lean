import FlowLock.Proofs.Import.Resolve
import FlowLock.Proofs.Import.Shown

/-!
# Lock files among the imports

An entry that is written like a lock file is refused.  The file is looked for without the empty
names and single dots of the entry, though, so an entry that has one of these at its end is not
written like the file it leads to.  A lock file is imported by such an entry, and by no other.
-/

namespace FlowLock

open Import Outcome List Path Text

namespace Import

/-- Whether a text ends as the names of lock files do, in any case. -/
def isLockName (text : String) : Bool := endsWith (lower text) ".lock.yml"

theorem isLockName_of_suffix {name text : String} (h : isLockName name)
    (hsuffix : name.toList <:+ text.toList) : isLockName text := by
  obtain ⟨before, htext⟩ := hsuffix
  obtain ⟨part, hpart⟩ := exists_lowerList_append [] before name.toList
  have hname : ".lock.yml".toList <:+ lowerList [] name.toList := by
    simpa [isLockName, endsWith, lower] using h
  have hlower := suffix_of_sameLower (by decide)
    (forall₂_lowerList (before.reverse ++ []) [] name.toList) hname
  have hall : ".lock.yml".toList <:+ lowerList [] text.toList := by
    rw [← htext, hpart]
    exact hlower.trans (suffix_append ..)
  simpa [isLockName, endsWith, lower] using hall

def Entry.lastPiece (entry : Entry) : String := (splitOn entry.path '/').getLast?.getD ""

theorem suffix_intercalate {α : Type} (sep : List α) (xs : List (List α)) (x : List α) :
    x <:+ sep.intercalate (xs ++ [x]) := by
  induction xs with
  | nil => rw [nil_append, intercalate_singleton]
  | cons y xs ih =>
    obtain ⟨z, zs, hz⟩ := exists_cons_of_ne_nil (concat_ne_nil x xs)
    rw [cons_append, hz, intercalate_cons_cons, ← hz]
    exact ih.trans (suffix_append ..)

theorem Entry.lastPiece_spec (entry : Entry) : entry.lastPiece.toList <:+ entry.path.toList ∧
      (entry.lastPiece ∉ ["", "."] →
        ∃ before, (Path.ofText entry.path).names = before ++ [entry.lastPiece]) := by
  have hne : splitOn entry.path '/' ≠ [] := fun h =>
    splitList_ne_nil _ _ (map_eq_nil_iff.mp h)
  obtain ⟨before, last, hpieces⟩ := (eq_nil_or_concat' _).resolve_left hne
  have hlast : entry.lastPiece = last := by
    rw [lastPiece, hpieces, getLast?_concat, Option.getD_some]
  obtain ⟨htext, -⟩ := (splitOn_eq_iff (by simp)).mp hpieces
  constructor
  · rw [hlast, htext, String.toList_intercalate, map_append]
    exact suffix_intercalate _ _ _
  · intro hplain
    rw [hlast] at hplain ⊢
    have hkept : (last != "" && last != ".") := by simpa using hplain
    exact ⟨before.filter fun name => name != "" && name != ".", by
      rw [Path.ofText, hpieces, filter_append, filter_singleton, hkept, cond_true]⟩

/-- A file has the last name of its entry, if the entry has one, and where this is the name of a
lock file the entry has nothing or a dot after its last slash. -/
structure File.IsNamed (file : File) : Prop where
  name_eq : (ofText file.entry.path).names ≠ [] →
    file.path.name = (ofText file.entry.path).name
  lastPiece_mem : isLockName file.path.name = true → file.entry.lastPiece ∈ ["", "."]

end Import

namespace Imports

variable {tree : FileTree} {base importer path : Path} {inlining : Bool} {stack : List Path}
  {entry : Entry} {v : Visit} {m : Move}

/-- **A file has the last name that its entry has**, if it has any. -/
theorem name_of_target (h : target tree importer stack entry = .ok path)
    (hnames : (ofText entry.path).names ≠ []) : path.name = (ofText entry.path).name := by
  obtain ⟨rfl, hfile, -⟩ := target_eq_ok h
  obtain ⟨before, last, hlast⟩ := (eq_nil_or_concat' _).resolve_left hnames
  obtain ⟨way, hway⟩ := names_join importer.parent (ofText entry.path)
  obtain ⟨start, hstart⟩ := names_join tree.workdir
    (importer.parent.join (ofText entry.path))
  rw [hway, hlast, ← append_assoc, ← append_assoc] at hstart
  have hdown : last ≠ ".." := by
    rintro rfl
    exact FileTree.not_isFile_of_up hstart hfile
  rw [Entry.leadsTo, name_resolve hstart hdown, name, hlast, getLast?_concat,
    Option.getD_some]

theorem lastPiece_of_target (h : target tree importer stack entry = .ok path)
    (hlock : isLockName path.name) : entry.lastPiece ∈ ["", "."] := by
  -- Otherwise the entry is written with the name at its end, and is refused.
  by_contra hplain
  obtain ⟨hsuffix, hnames⟩ := entry.lastPiece_spec
  obtain ⟨before, hbefore⟩ := hnames hplain
  rw [name_of_target h (by simp [hbefore]), Path.name, hbefore, getLast?_concat,
    Option.getD_some] at hlock
  have hwritten : isLockName entry.path = false := (target_eq_ok h).2.2
  rw [isLockName_of_suffix hlock hsuffix] at hwritten
  cases hwritten

/-- **Which entries import lock files.**  When imports are resolved, a file has the last name that
its entry has, at any depth, and where that is the name of a lock file the entry ends in a slash
or in a slash and a dot. -/
theorem lock_files_need_open_end (tree : FileTree) (cache : Cache) (inlining : Bool)
    (source : Path) (settings : Entries) (r : Resolution)
    (h : resolve tree cache inlining source settings = .ok r) :
    ∀ file ∈ r.imports.files, file.IsNamed := by
  refine forall_files_of_resolve h fun inlined hentered => ?_
  obtain ⟨cached, text, -, -, rfl⟩ := hentered.loaded
  exact
    { name_eq := name_of_target hentered.target
      lastPiece_mem := lastPiece_of_target hentered.target }

def lockSample : FileTree :=
  { nodes :=
      [(["repo", "a.md"], .file (Utf8.encode "---\nimports: [X.lock.YML/.]\n---\n")),
       (["repo", "X.lock.YML"], .file (Utf8.encode "L\n"))]
    workdir := ofText "/repo" }

theorem exists_resolve_lockSample :
    ∃ r, resolve lockSample .empty false (ofText "main.md")
        [(.str "imports", .list [.str "./a.md"])] = .ok r ∧
      r.imports.paths = ["/repo/a.md", "/repo/X.lock.YML"] ∧
      ∃ file ∈ r.imports.files, isLockName file.path.name := by
  decide +kernel

theorem lock_files_need_open_end_sample :
    ∃ r, resolve lockSample .empty false (ofText "main.md")
        [(.str "imports", .list [.str "./a.md"])] = .ok r ∧
      ∃ file ∈ r.imports.files, isLockName file.path.name = true ∧
        file.entry.lastPiece ∈ ["", "."] := by
  obtain ⟨r, hr, -, file, hfile, hlock⟩ := exists_resolve_lockSample
  have hnamed := lock_files_need_open_end lockSample .empty false _ _ r hr file hfile
  exact ⟨r, hr, file, hfile, hlock, hnamed.lastPiece_mem hlock⟩

/-- Not every lock file is refused. -/
theorem lock_file_imported :
    ¬ ∀ (tree : FileTree) (source : Path) (settings : Entries) (r : Resolution),
      resolve tree .empty false source settings = .ok r →
      ∀ file ∈ r.imports.files, isLockName file.path.name = false := by
  intro h
  obtain ⟨r, hr, -, file, hfile, hlock⟩ := exists_resolve_lockSample
  rw [h _ _ _ r hr file hfile] at hlock
  cases hlock

end Imports

end FlowLock
