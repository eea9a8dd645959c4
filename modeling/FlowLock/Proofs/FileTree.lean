import FlowLock.FileTree
import FlowLock.Proofs.Outcome
import FlowLock.Proofs.Path

/-!
# Files are where their paths resolve to

A path is followed name by name through directories that are there, and resolved by
its names alone.  Without links the two agree: where following succeeds it ends at the
location of the resolved path.  So a path that leads to a file resolves to a location
that the tree lists.

A file that is put somewhere is found there and changes nothing elsewhere; put where nothing
was listed, it is removed without a trace.  Trees that have the same directories are looked
through in the same way, and read in the same way where they have the same files.
-/

namespace FlowLock.FileTree

open Outcome List Path

variable {tree : FileTree} {path : Path} {location other p : Location} {names : List String}
  {content : List UInt8} {nodes : List (Location × FileNode)}

private theorem follow_eq_ok {shown : String} {here : Location}
    (h : tree.follow shown here names = .ok location) :
    location =
      names.foldl (fun up name => if name == ".." then up.dropLast else up ++ [name]) here := by
  induction names generalizing here with
  | nil =>
    simp only [follow, Except.ok.injEq] at h
    exact h.symm
  | cons name names ih =>
    unfold follow at h
    split at h
    · cases h
    · cases h
    · split at h
      · next hup =>
        rw [foldl_cons, if_pos hup]
        exact ih h
      · next hup =>
        split at h
        · cases h
        · rw [foldl_cons, if_neg hup]
          exact ih h

theorem locate_eq_ok (h : tree.locate path = .ok location) :
    location = (resolve tree.workdir path).names := by
  unfold locate at h
  split at h
  · cases h
  · split at h
    · cases h
    · exact follow_eq_ok h

theorem exists_locate_of_isFile (h : tree.isFile path = .ok true) :
    ∃ location, tree.locate path = .ok location ∧ tree.kindAt location = .file := by
  obtain ⟨kind, hkind, hfile⟩ := bind_eq_ok.mp h
  have hfile : kind = .file := by simpa using hfile
  subst hfile
  unfold kindOf at hkind
  split at hkind
  · next location hlocate => exact ⟨location, hlocate, by simpa using hkind⟩
  · cases hkind
  · simp at hkind

theorem kindAt_of_isFile (h : tree.isFile path = .ok true) :
    tree.kindAt (resolve tree.workdir path).names = .file := by
  obtain ⟨location, hlocate, hkind⟩ := exists_locate_of_isFile h
  rwa [← locate_eq_ok hlocate]

/-- **A path that leads to a file resolves to a listed location.** -/
theorem mem_nodes_of_isFile (h : tree.isFile path = .ok true) :
    ∃ content, ((resolve tree.workdir path).names, FileNode.file content) ∈ tree.nodes := by
  have hat := kindAt_of_isFile h
  generalize (resolve tree.workdir path).names = location at hat ⊢
  unfold kindAt at hat
  split at hat
  · next content hnode =>
    simp only [node?, Option.map_eq_some_iff] at hnode
    obtain ⟨⟨place, node⟩, hfind, rfl⟩ := hnode
    have hplace : place = location := by simpa using find?_some hfind
    exact ⟨content, hplace ▸ mem_of_find?_eq_some hfind⟩
  · cases hat
  · split at hat <;> cases hat

/-! ## Directories on the way -/

/-- Names that can be followed lead below directories, and to one when they go up at the end. -/
theorem directory_of_follow {shown : String} {here : Location}
    (hway : ∀ p, p <+: here → p ≠ here → tree.kindAt p = .directory)
    (h : tree.follow shown here names = .ok location) (hp : p <+: location)
    (hlast : p ≠ location ∨ names.getLast? = some "..") : tree.kindAt p = .directory := by
  induction names generalizing here with
  | nil =>
    obtain rfl : here = location := by simpa [follow] using h
    exact hway p hp (hlast.resolve_right nofun)
  | cons name names ih =>
    rw [follow] at h
    split at h
    · cases h
    · cases h
    · next hhere =>
      have hall : ∀ p, p <+: here → tree.kindAt p = .directory := by
        intro p hp
        by_cases heq : p = here
        · rwa [heq]
        · exact hway p hp heq
      by_cases hnames : names = []
      · -- The last name leads up from a directory, or down to where the way ends.
        subst hnames
        split at h
        · obtain rfl : here.dropLast = location := by simpa [follow] using h
          exact hall p (hp.trans (List.dropLast_prefix here))
        · next hdown =>
          split at h
          · cases h
          · obtain rfl : here ++ [name] = location := by simpa [follow] using h
            have hne := hlast.resolve_right fun hup => hdown (by simpa using hup)
            exact hall p ((prefix_concat_iff.mp hp).resolve_left hne)
      · rw [getLast?_cons_of_ne_nil hnames] at hlast
        split at h
        · exact ih (fun p hp _ => hall p (hp.trans (List.dropLast_prefix here))) h hlast
        · split at h
          · cases h
          · exact ih (fun p hp hne => hall p ((prefix_concat_iff.mp hp).resolve_left hne)) h
              hlast

theorem directory_of_locate (h : tree.locate path = .ok location) (hp : p <+: location)
    (hlast : p ≠ location ∨ (tree.workdir.join path).names.getLast? = some "..") :
    tree.kindAt p = .directory := by
  unfold locate at h
  split at h
  · cases h
  · split at h
    · cases h
    · exact directory_of_follow (fun p hp hne => absurd (prefix_nil.mp hp) hne) h hp hlast

theorem not_isFile_of_up (hnames : (tree.workdir.join path).names = names ++ [".."]) :
    tree.isFile path ≠ .ok true := by
  intro h
  obtain ⟨location, hlocate, hfile⟩ := exists_locate_of_isFile h
  have hup : (tree.workdir.join path).names.getLast? = some ".." := by
    rw [hnames, getLast?_concat]
  rw [directory_of_locate hlocate prefix_rfl (.inr hup)] at hfile
  cases hfile

theorem kindAt_of_locate {name : String}
    (h : tree.locate { root := "/", names := names ++ [name] } = .ok location)
    (hdown : ∀ n ∈ names ++ [name], n ≠ "..") (hp : p <+: names) : tree.kindAt p = .directory := by
  obtain rfl : location = names ++ [name] :=
    (locate_eq_ok h).trans (collapse_of_forall_ne hdown)
  refine directory_of_locate h (hp.trans (prefix_append ..)) (.inl fun heq => ?_)
  have hle := hp.length_le
  rw [heq, length_append, length_singleton] at hle
  omega

/-! ## Files put and removed -/

theorem find?_putNode (other : Location) :
    (putNode location content nodes).find? (fun e => e.1 == other) =
      if location = other then some (location, .file content)
      else nodes.find? fun e => e.1 == other := by
  fun_induction putNode location content nodes <;> grind

theorem any_putNode (q : Location → Bool) : (putNode location content nodes).any (fun e => q e.1) =
      (q location || nodes.any fun e => q e.1) := by
  fun_induction putNode location content nodes <;> grind

theorem putNode_of_not_mem (h : location ∉ nodes.map (·.1)) :
    putNode location content nodes = nodes ++ [(location, .file content)] := by
  fun_induction putNode location content nodes <;> grind

theorem putNode_putNode (content' : List UInt8) :
    putNode location content' (putNode location content nodes) = putNode location content' nodes := by
  fun_induction putNode location content nodes <;> grind [putNode]

theorem put_put (tree : FileTree) (location : Location) (content content' : List UInt8) :
    (tree.put location content).put location content' = tree.put location content' := by
  simp only [put, putNode_putNode]

theorem node?_put (tree : FileTree) (location other : Location) (content : List UInt8) :
    (tree.put location content).node? other =
      if location = other then some (.file content) else tree.node? other := by
  rw [node?, put, find?_putNode]
  split <;> rfl

theorem remove_put (h : location ∉ tree.nodes.map (·.1)) (content : List UInt8) :
    (tree.put location content).remove location = tree := by
  have hothers : tree.nodes.filter (fun e => e.1 != location) = tree.nodes := by
    refine filter_eq_self.mpr fun e he => ?_
    have hne : e.1 ≠ location := fun heq => h (mem_map.mpr ⟨e, he, heq⟩)
    simpa using hne
  simp [remove, put, putNode_of_not_mem h, hothers]

theorem kindAt_put_of_ne (hway : ∀ p, p <+: location → p ≠ location → tree.kindAt p = .directory)
    (hne : other ≠ location) : (tree.put location content).kindAt other = tree.kindAt other := by
  unfold kindAt
  rw [node?_put, if_neg hne.symm]
  cases hnode : tree.node? other with
  | some node => cases node <;> rfl
  | none =>
    dsimp only
    rw [put, any_putNode]
    by_cases hp : other.isPrefixOf location
    · -- On the way to the file there is a directory already.
      have hdirectory := hway other (List.isPrefixOf_iff_prefix.mp hp) hne
      unfold kindAt at hdirectory
      rw [hnode] at hdirectory
      dsimp only at hdirectory
      rw [hdirectory, hp]
      simp
    · rw [(Bool.not_eq_true _).mp hp, Bool.false_or]

theorem kindAt_put_of_directory (hne : other ≠ location) (h : tree.kindAt other = .directory) :
    (tree.put location content).kindAt other = .directory := by
  unfold kindAt at h ⊢
  rw [node?_put, if_neg hne.symm]
  split at h
  · cases h
  · rfl
  · split at h
    · next hany =>
      rw [if_pos]
      rw [put, any_putNode]
      simp only [Bool.or_eq_true] at hany ⊢
      tauto
    · cases h

/-! ## Trees that agree -/

structure AgreeOff (apart : Location → Prop) (tree tree' : FileTree) : Prop where
  workdir_eq : tree'.workdir = tree.workdir
  directory_iff : ∀ location, tree'.kindAt location = .directory ↔ tree.kindAt location = .directory
  node?_eq : ∀ location, ¬apart location → tree'.node? location = tree.node? location

/-- The problems with a path that leads nowhere. -/
inductive Absent : FileProblem → Prop
  | missing (shown : String) : Absent (.missing shown)
  | notDirectory (shown : String) : Absent (.notDirectory shown)

theorem kindAt_eq_file_iff :
    tree.kindAt location = .file ↔ ∃ content, tree.node? location = some (.file content) := by
  unfold kindAt
  split
  · next content h => simp [h]
  · next h => simp [h]
  · next h => split <;> simp [h]

theorem readText_of_locate_error {problem : FileProblem} (h : tree.locate path = .error problem) :
    tree.readText path = .error problem := by
  rw [readText, read, h]
  rfl

namespace AgreeOff

variable {apart apart' : Location → Prop} {tree' tree'' : FileTree}

protected theorem refl (tree : FileTree) : AgreeOff apart tree tree :=
  ⟨rfl, fun _ => .rfl, fun _ _ => rfl⟩

protected theorem trans (h : AgreeOff apart tree tree') (h' : AgreeOff apart' tree' tree'') :
    AgreeOff (fun location => apart location ∨ apart' location) tree tree'' where
  workdir_eq := h'.workdir_eq.trans h.workdir_eq
  directory_iff location := (h'.directory_iff location).trans (h.directory_iff location)
  node?_eq location hout :=
    (h'.node?_eq location (hout ∘ .inr)).trans (h.node?_eq location (hout ∘ .inl))

theorem mono (h : AgreeOff apart tree tree') (hsub : ∀ location, apart location → apart' location) :
    AgreeOff apart' tree tree' :=
  ⟨h.workdir_eq, h.directory_iff, fun location hout => h.node?_eq location (hout ∘ hsub location)⟩

theorem kindAt_eq (h : AgreeOff apart tree tree') (hlocation : ¬apart location) :
    tree'.kindAt location = tree.kindAt location := by
  have hfile : tree'.kindAt location = .file ↔ tree.kindAt location = .file := by
    rw [kindAt_eq_file_iff, kindAt_eq_file_iff, h.node?_eq location hlocation]
  have hdirectory := h.directory_iff location
  cases hkind : tree.kindAt location <;> cases hkind' : tree'.kindAt location <;> simp_all

theorem follow_cases (h : AgreeOff apart tree tree') (shown : String) (here : Location)
    (names : List String) :
    tree'.follow shown here names = tree.follow shown here names ∨
      ∃ p p', tree.follow shown here names = .error p ∧
        tree'.follow shown here names = .error p' ∧ Absent p ∧ Absent p' := by
  induction names generalizing here with
  | nil => exact .inl rfl
  | cons name names ih =>
    rw [follow, follow]
    have hhere := h.directory_iff here
    cases hkind : tree.kindAt here with
    | directory =>
      rw [hhere.mpr hkind]
      dsimp only
      split
      · exact ih _
      · split
        · exact .inl rfl
        · exact ih _
    | _ =>
      -- A place that is no directory ends the way.
      cases hkind' : tree'.kindAt here with
      | directory => exact absurd (hhere.mp hkind') (by rw [hkind]; exact nofun)
      | _ => exact .inr ⟨_, _, rfl, rfl, by constructor, by constructor⟩

theorem locate_cases (h : AgreeOff apart tree tree') (path : Path) :
    tree'.locate path = tree.locate path ∨
      ∃ p p', tree.locate path = .error p ∧ tree'.locate path = .error p' ∧ Absent p ∧
        Absent p' := by
  unfold locate
  rw [h.workdir_eq]
  split
  · exact .inl rfl
  · split
    · exact .inl rfl
    · exact h.follow_cases _ _ _

theorem locate_eq (h : AgreeOff apart tree tree') {names : List String}
    (hdown : ∀ name ∈ names, name ≠ "..")
    (hway : ∀ p, p <+: names → p ≠ names → tree.kindAt p = .directory) :
    tree'.locate { root := "/", names } = tree.locate { root := "/", names } := by
  have hfollow : ∀ (shown : String) (before after : List String), before ++ after = names →
      tree'.follow shown before after = tree.follow shown before after := by
    intro shown before after hnames
    induction after generalizing before with
    | nil => rfl
    | cons name after ih =>
      have hbefore : tree.kindAt before = .directory :=
        hway before ⟨_, hnames⟩ fun heq => by simp [heq] at hnames
      have hname : ¬(name == "..") := by
        simpa using hdown name (hnames ▸ mem_append_right _ mem_cons_self)
      rw [follow, follow, hbefore, (h.directory_iff before).mpr hbefore]
      dsimp only
      rw [if_neg hname, if_neg hname, ih (before ++ [name]) (by simpa using hnames)]
  have hjoin : (tree.workdir.join { root := "/", names }).names = names := rfl
  unfold locate
  rw [h.workdir_eq, hjoin, hfollow _ [] names rfl]

theorem isFile_eq (h : AgreeOff apart tree tree')
    (hkind : tree'.kindAt (resolve tree.workdir path).names =
      tree.kindAt (resolve tree.workdir path).names) :
    tree'.isFile path = tree.isFile path := by
  have hkinds : tree'.kindOf path = tree.kindOf path := by
    unfold kindOf
    obtain heq | ⟨p, p', hp, hp', habsent, habsent'⟩ := h.locate_cases path
    · rw [heq]
      cases hlocate : tree.locate path with
      | error problem => cases problem <;> rfl
      | ok found => exact congrArg Except.ok (locate_eq_ok hlocate ▸ hkind)
    · rw [hp, hp']
      cases habsent <;> cases habsent' <;> rfl
  rw [isFile, isFile, hkinds]

theorem readText_eq (h : AgreeOff apart tree tree')
    (hlocate : tree'.locate path = tree.locate path)
    (hpath : ¬apart (resolve tree.workdir path).names) :
    tree'.readText path = tree.readText path := by
  have hread : tree'.read path = tree.read path := by
    rw [read, read, hlocate]
    cases hfound : tree.locate path with
    | error problem => rfl
    | ok found =>
      have hapart : ¬apart found := locate_eq_ok hfound ▸ hpath
      dsimp only [bind, Except.bind]
      rw [h.node?_eq found hapart, h.kindAt_eq hapart]
  rw [readText, readText, hread]

end AgreeOff

end FlowLock.FileTree
