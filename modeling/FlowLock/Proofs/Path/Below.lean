import FlowLock.Proofs.Path

/-!
# Paths below a directory

A path below a directory is the directory and the names that follow.  Names that never lead out
of the directory are resolved without a look at it, and the way from one place below it to
another does not pass through it.
-/

namespace FlowLock.Path

open List

def below (directory names : List String) : Path := { root := "/", names := directory ++ names }

/-- Whether names that are followed from a place never lead above the place where its own names
start. -/
def staysInside : List String → List String → Bool
  | _, [] => true
  | here, name :: names =>
    if name == ".." then !here.isEmpty && staysInside here.dropLast names
    else staysInside (here ++ [name]) names

def spelled (names : List String) : String := String.join (names.map ("/" ++ ·))

instance : DecidablePred IsName :=
  fun name => inferInstanceAs (Decidable (name ≠ "" ∧ '/' ∉ name.toList))

variable {d names a b : List String}

/-! ## Parts -/

@[simp] theorem names_below (d names : List String) : (below d names).names = d ++ names := rfl

theorem below_inj : below d a = below d b ↔ a = b := by
  constructor
  · intro h
    exact append_cancel_left (congrArg names h)
  · rintro rfl
    rfl

theorem parent_below (d : List String) (h : names ≠ []) :
    (below d names).parent = below d names.dropLast := by
  rw [parent, below, below, dropLast_append_of_ne_nil h]

theorem name_below (d : List String) (h : names ≠ []) : (below d names).name = names.getLast h := by
  rw [name, names_below, getLast?_append_of_ne_nil _ h, getLast?_eq_some_getLast h]
  rfl

theorem join_below (d : List String) {p : Path} (h : p.isAbsolute = false) :
    (below d names).join p = below d (names ++ p.names) := by
  rw [join, h, if_neg Bool.false_ne_true, below, below, append_assoc]

theorem join_absolute (p : Path) (d names : List String) : p.join (below d names) = below d names :=
  rfl

/-! ## Resolving -/

theorem foldl_collapse_append (here : List String) (h : staysInside here names) :
    names.foldl (fun up name => if name == ".." then up.dropLast else up ++ [name]) (d ++ here) =
      d ++
        names.foldl (fun up name => if name == ".." then up.dropLast else up ++ [name]) here := by
  induction names generalizing here with
  | nil => rfl
  | cons name names ih =>
    rw [staysInside] at h
    rw [foldl_cons, foldl_cons]
    split at h
    · next hup =>
      obtain ⟨hhere, hrest⟩ := Bool.and_eq_true_iff.mp h
      have hne : here ≠ [] := by simpa using hhere
      rw [if_pos hup, if_pos hup, dropLast_append_of_ne_nil hne]
      exact ih _ hrest
    · next hup =>
      rw [if_neg hup, if_neg hup, append_assoc]
      exact ih _ h

/-- **A path below a directory is resolved below it**, when its names stay inside. -/
theorem resolve_below (workdir : Path) (hd : ∀ name ∈ d, name ≠ "..")
    (h : staysInside [] names) :
    resolve workdir (below d names) = below d (collapse names) := by
  have hcollapse : collapse (d ++ names) = d ++ collapse names := by
    have hdirectory := collapse_of_forall_ne hd
    have hrest := foldl_collapse_append (d := d) [] h
    rw [append_nil] at hrest
    unfold collapse at hdirectory ⊢
    rw [foldl_append, hdirectory]
    exact hrest
  rw [resolve, join_absolute, names_below, hcollapse]
  rfl

theorem staysInside_of_forall_ne (here : List String) (h : ∀ name ∈ names, name ≠ "..") :
    staysInside here names := by
  induction names generalizing here with
  | nil => rfl
  | cons name names ih =>
    obtain ⟨hname, hrest⟩ := forall_mem_cons.mp h
    rw [staysInside, if_neg (by simpa using hname)]
    exact ih _ hrest

theorem resolve_below_of_forall_ne (workdir : Path) (hd : ∀ name ∈ d, name ≠ "..")
    (h : ∀ name ∈ names, name ≠ "..") : resolve workdir (below d names) = below d names := by
  rw [resolve_below workdir hd (staysInside_of_forall_ne [] h), collapse_of_forall_ne h]

theorem collapse_sublist (names : List String) : (collapse names).Sublist names := by
  have hfold : ∀ (names up : List String),
      (names.foldl (fun up name => if name == ".." then up.dropLast else up ++ [name]) up).Sublist
        (up ++ names) := by
    intro names
    induction names with
    | nil => simp
    | cons name names ih =>
      intro up
      rw [foldl_cons]
      refine (ih _).trans ?_
      split
      · exact (dropLast_sublist up).append (sublist_cons_self name names)
      · rw [append_assoc, singleton_append]
  exact hfold names []

/-! ## Relative paths -/

theorem withoutCommon_append (d a b : List String) :
    withoutCommon (d ++ a) (d ++ b) = withoutCommon a b := by
  induction d with
  | nil => rfl
  | cons name d ih => rw [cons_append, cons_append, withoutCommon, if_pos (by simp), ih]

theorem relativeTo_below (workdir : Path) (hd : ∀ name ∈ d, name ≠ "..")
    (ha : ∀ name ∈ a, name ≠ "..") (hb : ∀ name ∈ b, name ≠ "..") :
    relativeTo workdir (below d a) (below d b) =
      { root := ""
        names := (withoutCommon a b).2.map (fun _ => "..") ++ (withoutCommon a b).1 } := by
  unfold relativeTo
  rw [resolve_below_of_forall_ne workdir hd ha, resolve_below_of_forall_ne workdir hd hb,
    names_below, names_below, withoutCommon_append]

/-! ## Spelling -/

theorem spelled_append (a b : List String) : spelled (a ++ b) = spelled a ++ spelled b := by
  rw [spelled, map_append, String.join_append]
  rfl

theorem spelled_cons (name : String) (names : List String) :
    spelled (name :: names) = "/" ++ name ++ spelled names := by
  rw [spelled, map_cons, String.join_cons]
  rfl

theorem intercalate_eq_spelled (h : names ≠ []) :
    "/" ++ "/".intercalate names = spelled names := by
  induction names with
  | nil => exact absurd rfl h
  | cons name names ih =>
    cases names with
    | nil => rw [String.intercalate_singleton, spelled_cons, spelled, map_nil, String.join_nil,
        String.append_empty]
    | cons next names =>
      have hrest := ih (cons_ne_nil next names)
      rw [String.intercalate_cons_cons, spelled_cons name, ← hrest]
      simp only [String.append_assoc]

theorem text_below (d names : List String) :
    (below d names).text = if d ++ names = [] then "/" else spelled (d ++ names) := by
  have htext : (below d names).text = "/" ++ "/".intercalate (d ++ names) := rfl
  rw [htext]
  split
  · next hnil => rw [hnil, String.intercalate_nil, String.append_empty]
  · next hne => exact intercalate_eq_spelled hne

theorem text_below_of_ne_nil (d : List String) (h : names ≠ []) :
    (below d names).text = spelled d ++ spelled names := by
  rw [text_below, if_neg (by simp [h]), spelled_append]

theorem mem_toList_spelled {c : Char} (hc : c ≠ '/') :
    c ∈ (spelled names).toList ↔ ∃ name ∈ names, c ∈ name.toList := by
  induction names with
  | nil => simp [spelled]
  | cons name names ih =>
    rw [spelled_cons, String.toList_append, String.toList_append]
    simp [hc, ih]

theorem mem_toList_text_below {c : Char} (hc : c ≠ '/') :
    c ∈ (below d names).text.toList ↔ ∃ name ∈ d ++ names, c ∈ name.toList := by
  rw [text_below]
  split
  · next hnil => simp [hnil, hc]
  · exact mem_toList_spelled hc

theorem utf8ByteSize_spelled_cons (name : String) (names : List String) :
    (spelled (name :: names)).utf8ByteSize =
      1 + name.utf8ByteSize + (spelled names).utf8ByteSize := by
  rw [spelled_cons, String.utf8ByteSize_append, String.utf8ByteSize_append]
  rfl

theorem utf8ByteSize_spelled_le (h : a.Sublist b) :
    (spelled a).utf8ByteSize ≤ (spelled b).utf8ByteSize := by
  induction h with
  | slnil => exact Nat.le_refl _
  | cons name _ ih =>
    rw [utf8ByteSize_spelled_cons]
    omega
  | cons_cons name _ ih =>
    rw [utf8ByteSize_spelled_cons, utf8ByteSize_spelled_cons]
    omega

/-- A path with fewer names is no longer. -/
theorem utf8ByteSize_text_below_le (h : a.Sublist b) :
    (below d a).text.utf8ByteSize ≤ (below d b).text.utf8ByteSize := by
  have hspelled : (spelled (d ++ a)).utf8ByteSize ≤ (spelled (d ++ b)).utf8ByteSize :=
    utf8ByteSize_spelled_le (Sublist.append_left h d)
  rw [text_below, text_below]
  split
  · split
    · exact Nat.le_refl _
    · next hne =>
      obtain ⟨name, rest, heq⟩ := exists_cons_of_ne_nil hne
      rw [heq, utf8ByteSize_spelled_cons]
      have hone : "/".utf8ByteSize = 1 := rfl
      omega
  · next hne =>
    rw [if_neg]
    · exact hspelled
    · intro hnil
      have hsub := Sublist.append_left h d
      rw [hnil] at hsub
      exact hne (sublist_nil.mp hsub)

end FlowLock.Path
