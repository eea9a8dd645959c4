import FlowLock.Path
import FlowLock.Proofs.Text.Split

/-!
# Paths lead where their spelling says

Two facts about paths carry every statement on files below.  A resolved path is
resolved already, so that resolving it a second time, from any directory, does not
move it.  And among absolute paths whose names are names of files, the spelling
tells the path: what is listed by spelling is listed by path.
-/

namespace FlowLock.Path

open List String

/-- A name that a file can have: not empty, and no slash in it. -/
def IsName (name : String) : Prop := name ≠ "" ∧ '/' ∉ name.toList

/-- A path all of whose names are names that a file can have. -/
def WellFormed (p : Path) : Prop := ∀ name ∈ p.names, IsName name

/-! ## Resolving -/

private theorem foldl_collapse_of_forall_ne (names up : List String)
    (h : ∀ name ∈ names, name ≠ "..") :
    names.foldl (fun up name => if name == ".." then up.dropLast else up ++ [name]) up =
      up ++ names := by
  induction names generalizing up with
  | nil => simp
  | cons name names ih =>
    have hname : (name == "..") = false := by simpa using h name (by simp)
    simp only [foldl_cons, hname, Bool.false_eq_true, if_false]
    rw [ih _ fun n hn => h n (mem_cons_of_mem _ hn)]
    simp

variable {names : List String}

theorem collapse_of_forall_ne (h : ∀ name ∈ names, name ≠ "..") : collapse names = names := by
  simpa [collapse] using foldl_collapse_of_forall_ne names [] h

variable {name : String}

private theorem mem_foldl_collapse (names up : List String) (h : name ∈ names.foldl
      (fun up name => if name == ".." then up.dropLast else up ++ [name]) up) :
    name ∈ up ∨ name ∈ names ∧ name ≠ ".." := by
  induction names generalizing up with
  | nil => exact .inl h
  | cons n names ih =>
    rw [foldl_cons] at h
    rcases ih _ h with hup | ⟨hmem, hne⟩
    · by_cases hn : n = ".."
      · simp only [hn, beq_self_eq_true, if_true] at hup
        exact .inl (mem_of_mem_dropLast hup)
      · simp only [beq_iff_eq, hn, if_false, mem_append, mem_singleton] at hup
        rcases hup with hup | rfl
        · exact .inl hup
        · exact .inr ⟨mem_cons_self, hn⟩
    · exact .inr ⟨mem_cons_of_mem _ hmem, hne⟩

theorem mem_collapse (h : name ∈ collapse names) : name ∈ names ∧ name ≠ ".." := by
  simpa using mem_foldl_collapse names [] h

/-- **A resolved path stays where it is**, whatever directory it is seen from. -/
@[simp] theorem resolve_resolve (directory directory' p : Path) :
    resolve directory (resolve directory' p) = resolve directory' p := by
  have hnames : collapse (collapse (directory'.join p).names) =
      collapse (directory'.join p).names :=
    collapse_of_forall_ne fun name h => (mem_collapse h).2
  simp only [resolve, join, isAbsolute] at hnames ⊢
  simpa using hnames

theorem parent_withName (p : Path) (name : String) : (p.withName name).parent = p.parent := by
  simp [withName, parent]

theorem names_resolve_withName (directory p : Path) (hname : name ≠ "..") :
    (resolve directory (p.withName name)).names = (resolve directory p.parent).names ++ [name] := by
  have hjoin : (directory.join (p.withName name)).names =
      (directory.join p.parent).names ++ [name] := by
    unfold join isAbsolute withName parent
    dsimp only
    split <;> simp
  simp only [resolve, collapse, hjoin, foldl_append, foldl_cons,
    foldl_nil, beq_iff_eq, if_neg hname]

variable {p : Path}

theorem name_resolve {directory : Path} {last : String}
    (h : (directory.join p).names = names ++ [last]) (hlast : last ≠ "..") :
    (resolve directory p).name = last := by
  rw [resolve, name, collapse, h, foldl_append, foldl_cons, foldl_nil,
    if_neg (by simpa using hlast), getLast?_concat, Option.getD_some]

theorem names_join (p q : Path) : ∃ before, (p.join q).names = before ++ q.names := by
  unfold join
  split
  · exact ⟨[], rfl⟩
  · exact ⟨p.names, rfl⟩

/-! ## Well-formed paths -/

theorem wellFormed_ofText (s : String) : (ofText s).WellFormed := by
  intro name h
  simp only [ofText, Text.splitOn, mem_filter, mem_map, Bool.and_eq_true, bne_iff_ne, ne_eq] at h
  obtain ⟨⟨piece, hpiece, rfl⟩, hne, -⟩ := h
  exact ⟨hne, by simpa using Text.not_mem_of_mem_splitList hpiece⟩

theorem WellFormed.parent (h : p.WellFormed) : p.parent.WellFormed :=
  fun name hname => h name (mem_of_mem_dropLast hname)

theorem WellFormed.join {q : Path} (hp : p.WellFormed) (hq : q.WellFormed) :
    (p.join q).WellFormed := by
  intro name h
  unfold Path.join at h
  split at h
  · exact hq name h
  · rcases mem_append.mp h with h | h
    · exact hp name h
    · exact hq name h

theorem WellFormed.resolve {directory : Path} (hd : directory.WellFormed) (hp : p.WellFormed) :
    (resolve directory p).WellFormed :=
  fun name h => hd.join hp name (mem_collapse h).1

/-! ## Spelling -/

private theorem intercalate_inj {names' : List String} (h : ∀ n ∈ names, IsName n)
    (h' : ∀ n ∈ names', IsName n) (heq : "/".intercalate names = "/".intercalate names') :
    names = names' := by
  have hlist : ['/'].intercalate (names.map toList) =
      ['/'].intercalate (names'.map toList) := by
    simpa [toList_intercalate] using congrArg toList heq
  have hsplit : ∀ {ns : List String}, (∀ n ∈ ns, IsName n) → ns ≠ [] →
      (['/'].intercalate (ns.map toList)).splitOn '/' = ns.map toList := by
    intro ns hns hne
    refine splitOn_intercalate '/' ?_ (by simpa using hne)
    intro l hl
    obtain ⟨n, hn, rfl⟩ := mem_map.mp hl
    exact (hns n hn).2
  -- An empty list of names is spelled like a single empty name, which is none.
  have hnil : ∀ {ns : List String}, (∀ n ∈ ns, IsName n) →
      ['/'].intercalate (ns.map toList) = [] → ns = [] := by
    intro ns hns hempty
    by_contra hne
    have hone := hsplit hns hne
    rw [hempty] at hone
    cases ns with
    | nil => exact hne rfl
    | cons n ns =>
      have hn : n.toList = [] := by
        have := congrArg head? hone
        simpa using this.symm
      exact (hns n (by simp)).1 (by simpa using hn)
  by_cases hne : names = []
  · subst hne
    exact (hnil h' (by simpa using hlist.symm)).symm
  · have hne' : names' ≠ [] := by
      rintro rfl
      exact hne (hnil h (by simpa using hlist))
    have hmap : names.map toList = names'.map toList := by
      rw [← hsplit h hne, hlist, hsplit h' hne']
    exact map_injective_iff.mpr (fun _ _ => toList_inj.mp) hmap

/-- **The spelling of an absolute path tells the path.** -/
theorem text_inj {q : Path} (hp : p.WellFormed) (hq : q.WellFormed) (hpr : p.root = "/")
    (hqr : q.root = "/") (h : p.text = q.text) : p = q := by
  have hnames : "/".intercalate p.names = "/".intercalate q.names := by
    simp only [text, hpr, hqr] at h
    simpa using h
  cases p
  cases q
  simp only [mk.injEq]
  exact ⟨hpr.trans hqr.symm, intercalate_inj hp hq hnames⟩

end FlowLock.Path
