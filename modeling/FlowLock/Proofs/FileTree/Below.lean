import FlowLock.Proofs.FileTree
import FlowLock.Proofs.Path.Below

/-!
# The same files below two directories

Files that are laid out below a directory can be laid out below another one, in the same tree
or elsewhere.  A path that stays inside leads to the same file in both places, as long as it is
not too long to be looked up.
-/

namespace FlowLock

open List Path

namespace FileTree

open Outcome

/-- A directory of a tree: it and all above it are directories, and they have names that
directories can have. -/
structure IsDirectory (tree : FileTree) (directory : Location) : Prop where
  kind : ∀ p, p <+: directory → tree.kindAt p = .directory
  isName : ∀ name ∈ directory, IsName name
  ne_dots : ∀ name ∈ directory, name ≠ ".."
  ne_null : ∀ name ∈ directory, nullChar ∉ name.toList
  short : ∀ name ∈ directory, name.utf8ByteSize ≤ maxName

/-- Names below a directory that are not too long, together with it, to be looked up. -/
def Fits (directory names : Location) : Prop :=
  (below directory names).text.utf8ByteSize ≤ maxPath

instance (directory names : Location) : Decidable (Fits directory names) :=
  inferInstanceAs (Decidable (_ ≤ _))

structure SameBelow (tree : FileTree) (d : Location) (tree' : FileTree) (d' : Location) : Prop where
  isDirectory : tree.IsDirectory d
  isDirectory' : tree'.IsDirectory d'
  node? : ∀ rest, tree'.node? (d' ++ rest) = tree.node? (d ++ rest)
  kindAt : ∀ rest, tree'.kindAt (d' ++ rest) = tree.kindAt (d ++ rest)

/-- Two answers about where names lead from two directories. -/
inductive FoundAlike (d d' : Location) :
    Except FileProblem Location → Except FileProblem Location → Prop
  | place (rest : Location) : FoundAlike d d' (.ok (d ++ rest)) (.ok (d' ++ rest))
  | tooLong (shown shown' : String) :
      FoundAlike d d' (.error (.nameTooLong shown)) (.error (.nameTooLong shown'))
  /-- There is nothing, and not for the length of a name. -/
  | nowhere {p p' : FileProblem} (h : ∀ shown, p ≠ .nameTooLong shown)
      (h' : ∀ shown, p' ≠ .nameTooLong shown) : FoundAlike d d' (.error p) (.error p')

variable {tree tree' : FileTree} {d d' names : Location}

theorem Fits.collapse (h : Fits d names) : Fits d (collapse names) :=
  (utf8ByteSize_text_below_le (collapse_sublist names)).trans h

/-! ## Following names -/

theorem IsDirectory.follow_append (h : tree.IsDirectory d) (shown : String) (names : List String) :
    tree.follow shown [] (d ++ names) = tree.follow shown d names := by
  have hpart : ∀ above below : Location, above ++ below = d →
      tree.follow shown above (below ++ names) = tree.follow shown d names := by
    intro above below
    induction below generalizing above with
    | nil =>
      intro hd
      rw [← hd, append_nil, nil_append]
    | cons name below ih =>
      intro hd
      have hmem : name ∈ d := by rw [← hd]; simp
      rw [cons_append, follow, h.kind above ⟨_, hd⟩]
      dsimp only
      rw [if_neg (by simpa using h.ne_dots name hmem), if_neg (Nat.not_lt.mpr (h.short name hmem))]
      exact ih (above ++ [name]) (by rw [append_assoc, singleton_append, hd])
  exact hpart [] d rfl

theorem SameBelow.follow (h : SameBelow tree d tree' d') (shown shown' : String) (here : Location)
    (hinside : staysInside here names) :
    FoundAlike d d' (tree.follow shown (d ++ here) names)
      (tree'.follow shown' (d' ++ here) names) := by
  induction names generalizing here with
  | nil => exact .place here
  | cons name names ih =>
    rw [staysInside] at hinside
    rw [FileTree.follow, FileTree.follow, h.kindAt]
    cases tree.kindAt (d ++ here) with
    | missing => exact .nowhere (by simp) (by simp)
    | file => exact .nowhere (by simp) (by simp)
    | directory =>
      dsimp only
      split at hinside
      · next hup =>
        obtain ⟨hhere, hrest⟩ := Bool.and_eq_true_iff.mp hinside
        have hne : here ≠ [] := by simpa using hhere
        rw [if_pos hup, if_pos hup, dropLast_append_of_ne_nil hne, dropLast_append_of_ne_nil hne]
        exact ih _ hrest
      · next hup =>
        rw [if_neg hup, if_neg hup]
        by_cases hlong : maxName < name.utf8ByteSize
        · rw [if_pos hlong, if_pos hlong]
          exact .tooLong shown shown'
        · rw [if_neg hlong, if_neg hlong, append_assoc, append_assoc]
          exact ih _ hinside

theorem IsDirectory.hasChar_iff (h : tree.IsDirectory d) (names : List String) :
    Text.hasChar (below d names).text nullChar ↔ ∃ name ∈ names, nullChar ∈ name.toList := by
  rw [Text.hasChar, contains_iff_mem, mem_toList_text_below (by decide)]
  constructor
  · rintro ⟨name, hname, hnull⟩
    rcases mem_append.mp hname with hname | hname
    · exact absurd hnull (h.ne_null name hname)
    · exact ⟨name, hname, hnull⟩
  · rintro ⟨name, hname, hnull⟩
    exact ⟨name, mem_append_right d hname, hnull⟩

theorem SameBelow.hasChar_eq (h : SameBelow tree d tree' d') (names : List String) :
    Text.hasChar (below d' names).text nullChar = Text.hasChar (below d names).text nullChar :=
  Bool.eq_iff_iff.mpr ((h.isDirectory'.hasChar_iff names).trans
    (h.isDirectory.hasChar_iff names).symm)

theorem SameBelow.locate (h : SameBelow tree d tree' d') (hfits : Fits d names)
    (hfits' : Fits d' names) (hinside : staysInside [] names) :
    FoundAlike d d' (tree.locate (below d names)) (tree'.locate (below d' names)) := by
  rw [FileTree.locate, FileTree.locate, h.hasChar_eq]
  split
  · exact .nowhere (by simp) (by simp)
  · rw [if_neg (Nat.not_lt.mpr hfits), if_neg (Nat.not_lt.mpr hfits'), join_absolute,
      join_absolute, names_below, names_below, h.isDirectory.follow_append,
      h.isDirectory'.follow_append]
    simpa using h.follow (below d names).text (below d' names).text [] hinside

/-! ## Files -/

theorem SameBelow.isFile (h : SameBelow tree d tree' d') (hfits : Fits d names)
    (hfits' : Fits d' names) (hinside : staysInside [] names) :
    Matches Eq (tree.isFile (below d names)) (tree'.isFile (below d' names)) := by
  have hkind : Matches Eq (tree.kindOf (below d names))
      (tree'.kindOf (below d' names)) := by
    have hfound := h.locate hfits hfits' hinside
    unfold kindOf
    generalize tree.locate (below d names) = found at hfound
    generalize tree'.locate (below d' names) = found' at hfound
    cases hfound with
    | place rest => exact .ok (h.kindAt rest).symm
    | tooLong shown shown' => exact .error _ _
    | nowhere hp hp' =>
      split
      · next heq => cases heq
      · next heq =>
        cases heq
        exact absurd rfl (hp _)
      · exact .ok rfl
  refine hkind.bind ?_
  rintro kind _ - - rfl
  exact .ok rfl

theorem IsDirectory.collapse_ne_nil (h : tree.IsDirectory d)
    (hinside : staysInside [] names)
    (hfile : tree.isFile (below d names) = .ok true) : collapse names ≠ [] := by
  intro hnil
  have hkind := kindAt_of_isFile hfile
  rw [resolve_below tree.workdir h.ne_dots hinside, hnil, names_below, append_nil,
    h.kind d prefix_rfl] at hkind
  cases hkind

/-- Two answers to a read: the same, or errors that need not be the same. -/
inductive ReadAlike {α : Type} : Except FileProblem α → Except FileProblem α → Prop
  | ok (a : α) : ReadAlike (.ok a) (.ok a)
  | error (p p' : FileProblem) : ReadAlike (.error p) (.error p')

theorem SameBelow.readText (h : SameBelow tree d tree' d') (hfits : Fits d names)
    (hfits' : Fits d' names) (hinside : staysInside [] names) :
    ReadAlike (tree.readText (below d names)) (tree'.readText (below d' names)) := by
  have hread : ReadAlike (tree.read (below d names)) (tree'.read (below d' names)) := by
    have hfound := h.locate hfits hfits' hinside
    unfold read
    generalize tree.locate (below d names) = found at hfound
    generalize tree'.locate (below d' names) = found' at hfound
    cases hfound with
    | place rest =>
      dsimp only [bind, Except.bind]
      rw [h.node?, h.kindAt]
      cases tree.node? (d ++ rest) with
      | none => cases tree.kindAt (d ++ rest) <;> exact .error _ _
      | some node =>
        cases node with
        | file content => exact .ok content
        | directory => cases tree.kindAt (d ++ rest) <;> exact .error _ _
    | tooLong shown shown' => exact .error _ _
    | nowhere hp hp' => exact .error _ _
  unfold FileTree.readText
  generalize tree.read (below d names) = found at hread
  generalize tree'.read (below d' names) = found' at hread
  cases hread with
  | error p p' => exact .error p p'
  | ok content =>
    dsimp only [bind, Except.bind]
    split
    · exact .ok _
    · exact .error _ _

/-! ## Laying files out -/

/-- The tree with some files below a directory, seen from it. -/
def laidOut (d : Location) (nodes : List (Location × FileNode)) : FileTree :=
  { nodes := nodes.map fun e => (d ++ e.1, e.2), workdir := below d [] }

variable {nodes : List (Location × FileNode)}

theorem node?_laidOut (d rest : Location) :
    (laidOut d nodes).node? (d ++ rest) = (laidOut [] nodes).node? rest := by
  have hsame : ∀ names : Location, (d ++ names == d ++ rest) = (names == rest) := by
    intro names
    rw [Bool.eq_iff_iff]
    simp
  simp [node?, laidOut, find?_map, Function.comp_def, hsame]

theorem kindAt_laidOut (d rest : Location) :
    (laidOut d nodes).kindAt (d ++ rest) = (laidOut [] nodes).kindAt rest := by
  have hstart : ∀ other : Location,
      (d ++ rest).isPrefixOf (d ++ other) = rest.isPrefixOf other := by
    intro other
    rw [Bool.eq_iff_iff, isPrefixOf_iff_prefix, isPrefixOf_iff_prefix, prefix_append_right_inj]
  have hany : (laidOut d nodes).nodes.any (fun e => (d ++ rest).isPrefixOf e.1) =
      (laidOut [] nodes).nodes.any fun e => rest.isPrefixOf e.1 := by
    rw [laidOut, laidOut, any_map, any_map]
    exact congrArg nodes.any (funext fun e => hstart e.1)
  have hroot : (isEmpty (d ++ rest) ||
      (d ++ rest).isPrefixOf (laidOut d nodes).workdir.names) =
        (rest.isEmpty || rest.isPrefixOf (laidOut [] nodes).workdir.names) := by
    rw [laidOut, laidOut, names_below, names_below, hstart]
    cases rest <;> simp
  unfold kindAt
  rw [node?_laidOut, hany, hroot]

theorem isDirectory_laidOut (hnodes : ∀ e ∈ nodes, e.1 ≠ [])
    (hd : ∀ name ∈ d, IsName name ∧ name ≠ ".." ∧ nullChar ∉ name.toList ∧
      name.utf8ByteSize ≤ maxName) : (laidOut d nodes).IsDirectory d where
  kind p hp := by
    have hnode : (laidOut d nodes).node? p = none := by
      rw [node?, Option.map_eq_none_iff, find?_eq_none]
      intro e he heq
      obtain ⟨listed, hlisted, rfl⟩ := mem_map.mp he
      have hlength := hp.length_le
      rw [← beq_iff_eq.mp heq, length_append] at hlength
      exact hnodes listed hlisted (length_eq_zero_iff.mp (by omega))
    unfold kindAt
    rw [hnode]
    simp [laidOut, names_below, hp]
  isName name hname := (hd name hname).1
  ne_dots name hname := (hd name hname).2.1
  ne_null name hname := (hd name hname).2.2.1
  short name hname := (hd name hname).2.2.2

/-- **Files laid out below two directories are the same below them.** -/
theorem sameBelow_laidOut (hd : (laidOut d nodes).IsDirectory d)
    (hd' : (laidOut d' nodes).IsDirectory d') :
    SameBelow (laidOut d nodes) d (laidOut d' nodes) d' where
  isDirectory := hd
  isDirectory' := hd'
  node? rest := (node?_laidOut d' rest).trans (node?_laidOut d rest).symm
  kindAt rest := (kindAt_laidOut d' rest).trans (kindAt_laidOut d rest).symm

end FileTree

end FlowLock
