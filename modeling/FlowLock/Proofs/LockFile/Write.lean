import FlowLock.LockFile.Write
import FlowLock.Proofs.FileTree
import Mathlib.Data.List.Nodup
import Mathlib.Data.List.Perm.Subperm

/-!
# Writing a lock file is all or nothing

The temporary file gets a location where the tree lists nothing, so that removing it gives
the tree back, whichever step failed.  When all steps went well the temporary file is gone
too, and the tree differs at the location of the lock file only.
-/

namespace FlowLock.LockFile

open FileTree List Path

variable {tree : FileTree} {trouble : Trouble} {bytes : List UInt8}

/-! ## The temporary file -/

theorem nodup_temporaryNames (count : Nat) : (temporaryNames count).Nodup := by
  refine Nodup.map_on ?_ nodup_range
  intro n _ m _ h
  have hlength := congrArg String.length h
  simp only [String.length_append, Text.repeated, String.length_join, map_replicate,
    sum_replicate_nat] at hlength
  have hp : "P".length = 1 := rfl
  rw [hp] at hlength
  omega

theorem exists_free_name (tree : FileTree) (directory : Location) :
    ∃ name ∈ temporaryNames (tree.nodes.length + 1),
      ∀ e ∈ tree.nodes, ¬directory ++ [name] <+: e.1 := by
  by_contra hall
  push Not at hall
  -- Otherwise each of the names stands in a listed location, at the same depth.
  have hsub : temporaryNames (tree.nodes.length + 1) ⊆
      tree.nodes.filterMap fun e => e.1[directory.length]? := by
    intro name hname
    obtain ⟨e, he, rest, hrest⟩ := hall name hname
    refine mem_filterMap.mpr ⟨e, he, ?_⟩
    rw [← hrest]
    simp
  have hle := (subperm_of_subset (nodup_temporaryNames _) hsub).length_le
  have hnodes := length_filterMap_le (fun e : Location × FileNode => e.1[directory.length]?)
    tree.nodes
  simp only [temporaryNames, length_map, length_range] at hle
  omega

theorem freshLocation_not_mem (tree : FileTree) (directory : Location) :
    freshLocation tree directory ∉ tree.nodes.map (·.1) := by
  obtain ⟨name, hname, hfree⟩ := exists_free_name tree directory
  intro hmem
  obtain ⟨e, he, heq⟩ := mem_map.mp hmem
  rw [freshLocation] at heq
  cases hfind : (temporaryNames (tree.nodes.length + 1)).find? fun name =>
      !tree.nodes.any fun e => (directory ++ [name]).isPrefixOf e.1 with
  | none =>
    have hnone := find?_eq_none.mp hfind name hname
    simp only [Bool.not_eq_true', Bool.not_eq_false, any_eq_true, isPrefixOf_iff_prefix] at hnone
    obtain ⟨e, he, hprefix⟩ := hnone
    exact hfree e he hprefix
  | some free =>
    have hsome := find?_some hfind
    simp only [Bool.not_eq_true', any_eq_false, isPrefixOf_iff_prefix] at hsome
    rw [hfind] at heq
    exact hsome e he (heq ▸ prefix_rfl)

/-! ## Writing -/

/-- What is different after a file was put at a location: a file with the content is there,
where no directory was, and all other locations are as before. -/
structure Replaces (before after : FileTree) (location : Location) (content : List UInt8) :
    Prop where
  workdir : after.workdir = before.workdir
  file : after.node? location = some (.file content)
  noDirectory : before.kindAt location ≠ .directory
  node : ∀ other, other ≠ location → after.node? other = before.node? other
  kind : ∀ other, other ≠ location → after.kindAt other = before.kindAt other

theorem replaces_put {location : Location}
    (hway : ∀ p, p <+: location → p ≠ location → tree.kindAt p = .directory)
    (hkind : tree.kindAt location ≠ .directory) :
    Replaces tree (tree.put location bytes) location bytes where
  workdir := rfl
  file := by rw [node?_put, if_pos rfl]
  noDirectory := hkind
  node other hne := by rw [node?_put, if_neg hne.symm]
  kind other hne := kindAt_put_of_ne hway hne

theorem attempt_eq_ok {step : WriteStep} {after : Except FileProblem FileTree} {t : FileTree}
    (h : attempt trouble step after = .ok t) : trouble step = none ∧ after = .ok t := by
  unfold attempt at h
  split at h
  · cases h
  · next hnone => exact ⟨hnone, h⟩

/-- What a successful writing needed: no step failed, the file's directory is there, and no
directory is in the file's place. -/
structure Permits (trouble : Trouble) (tree : FileTree) (path : Path) : Prop where
  quiet : ∀ step, trouble step = none
  directory : ∀ p, p <+: (resolve tree.workdir path.parent).names → tree.kindAt p = .directory
  place : (resolve tree.workdir path).names ≠
      freshLocation tree (resolve tree.workdir path.parent).names →
    tree.kindAt (resolve tree.workdir path).names ≠ .directory

theorem rename_eq_ok {source target : Path} {old new : Location} {after : FileTree}
    (h : rename tree source target old new bytes = .ok after) :
    tree.kindAt new ≠ .directory ∧ after = (tree.remove old).put new bytes := by
  unfold rename at h
  split at h
  · cases h
  · split at h
    · cases h
    · split at h
      · cases h
      · next hkind =>
        cases h
        exact ⟨by simpa using hkind, rfl⟩

/-- **Writing is all or nothing.**  It fails and leaves the tree as it was, or every step went
well and the only change is that the file is at its location. -/
theorem write_cases (trouble : Trouble) (tree : FileTree) (path : Path) (content : String) :
    (∃ e, write trouble tree path content = (.error e, tree)) ∨ Permits trouble tree path ∧
        write trouble tree path content =
          (.ok path, tree.put (resolve tree.workdir path).names (Utf8.encode content)) := by
  have hfree := freshLocation_not_mem tree (resolve tree.workdir path.parent).names
  unfold write
  dsimp only
  split
  · exact .inl ⟨_, rfl⟩
  next hlocate =>
  split
  · exact .inl ⟨_, rfl⟩
  next created hcreated =>
  obtain ⟨hcreate, ⟨⟩⟩ := attempt_eq_ok hcreated
  split
  · exact .inl ⟨_, by rw [remove_put hfree]⟩
  split
  · exact .inl ⟨_, by rw [remove_put hfree]⟩
  next filled hfilled =>
  obtain ⟨hfill, ⟨⟩⟩ := attempt_eq_ok hfilled
  rw [put_put]
  split
  · exact .inl ⟨_, by rw [remove_put hfree]⟩
  next renamed hrenamed =>
  obtain ⟨hrename, hrenamed⟩ := attempt_eq_ok hrenamed
  obtain ⟨hkind, rfl⟩ := rename_eq_ok hrenamed
  refine .inr ⟨⟨?_, ?_, ?_⟩, by rw [remove_put hfree]⟩
  · rintro (_ | _ | _)
    · exact hcreate
    · exact hfill
    · exact hrename
  · intro p hp
    refine kindAt_of_locate hlocate ?_ hp
    intro name hname
    rcases mem_append.mp hname with hname | hname
    · exact (mem_collapse hname).2
    · rw [mem_singleton.mp hname]
      decide
  · exact fun hne hdirectory => hkind (kindAt_put_of_directory hne hdirectory)

/-! ## The place of a lock file -/

theorem freshLocation_ne (tree : FileTree) (directory : Location) (stem : String) :
    directory ++ [stem ++ ending] ≠ freshLocation tree directory := by
  intro h
  have hname := singleton_inj.mp (append_cancel_left h)
  have hending : (stem ++ ending).toList.getLast? = some 'l' := by
    rw [String.toList_append, getLast?_append]
    rfl
  have hfree : ∀ free ∈ temporaryNames (tree.nodes.length + 1), free.toList.getLast? = some 'p' := by
    intro free hfree
    obtain ⟨n, -, rfl⟩ := mem_map.mp hfree
    rw [String.toList_append, getLast?_append]
    rfl
  cases hfind : (temporaryNames (tree.nodes.length + 1)).find? fun name =>
      !tree.nodes.any fun e => (directory ++ [name]).isPrefixOf e.1 with
  | none =>
    rw [hname, hfind] at hending
    exact absurd hending (by decide)
  | some free =>
    rw [hname, hfind, Option.getD_some, hfree free (mem_of_find?_eq_some hfind)] at hending
    exact absurd hending (by decide)

theorem append_ending_ne_dots (stem : String) : stem ++ ending ≠ ".." := by
  intro heq
  have hlength := congrArg String.length heq
  rw [String.length_append] at hlength
  have hnine : ending.length = 9 := rfl
  have htwo : "..".length = 2 := rfl
  omega

theorem replaces_of_permits {source : Path} (h : Permits trouble tree (pathOf source)) :
    Replaces tree (tree.put (resolve tree.workdir (pathOf source)).names bytes)
      (resolve tree.workdir (pathOf source)).names bytes := by
  have hparent : (pathOf source).parent = source.parent := parent_withName ..
  have hnames : (resolve tree.workdir (pathOf source)).names =
      (resolve tree.workdir source.parent).names ++ [source.stem ++ ending] :=
    names_resolve_withName tree.workdir source (append_ending_ne_dots source.stem)
  have hdirectory := h.directory
  have hplace := h.place
  rw [hparent] at hdirectory hplace
  rw [hnames] at hplace ⊢
  refine replaces_put ?_ (hplace (freshLocation_ne _ _ _))
  intro p hp hne
  obtain hp | hp := prefix_concat_iff.mp hp
  · exact absurd hp hne
  · exact hdirectory p hp

end FlowLock.LockFile
