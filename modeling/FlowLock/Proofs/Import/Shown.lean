import FlowLock.Compile
import FlowLock.Proofs.FileTree.Below
import FlowLock.Proofs.Text

/-!
# What lock files show of a directory

A lock file shows paths from the first `.github` on, so of the directory that the files are in
it shows what comes from its own first `.github` on, and nothing when it has none.  Agent files
are told by the whole path, where a backslash counts as a slash.  Directories that look alike in
these two respects are not told apart.
-/

namespace FlowLock

open List Path Text

/-! ## Endings in lower case -/

namespace Text

def SameLower (c c' : Char) : Prop :=
  c = c' ∨ (c = Char.ofNat 0x3c2 ∨ c = Char.ofNat 0x3c3) ∧
    (c' = Char.ofNat 0x3c2 ∨ c' = Char.ofNat 0x3c3)

theorem forall₂_lowerList (before before' cs : List Char) :
    Forall₂ SameLower (lowerList before cs) (lowerList before' cs) := by
  have hsame : ∀ cs : List Char, Forall₂ SameLower cs cs :=
    fun cs => forall₂_same.mpr fun _ _ => .inl rfl
  induction cs generalizing before before' with
  | nil => exact .nil
  | cons c cs ih =>
    rw [lowerList, lowerList]
    refine rel_append ?_ (ih _ _)
    unfold lowerChar
    split
    · exact hsame _
    · split
      · refine .cons (.inr ⟨?_, ?_⟩) .nil
        · split <;> simp
        · split <;> simp
      · exact hsame _

theorem suffix_append_cons_iff {α : Type} {piece before after : List α} {c : α} (hc : c ∉ piece) :
    piece <:+ before ++ c :: after ↔ piece <:+ after := by
  constructor
  · intro h
    have hnot : ¬c :: after <:+ piece := fun hsub => hc (hsub.subset mem_cons_self)
    rcases suffix_or_suffix_of_suffix h (suffix_append before (c :: after)) with h | h
    · rcases suffix_cons_iff.mp h with rfl | h
      · exact absurd mem_cons_self hc
      · exact h
    · exact absurd h hnot
  · intro h
    exact (h.trans (suffix_cons c after)).trans (suffix_append before _)

theorem suffix_of_sameLower {piece cs cs' : List Char}
    (hpiece : ∀ c ∈ piece, c ≠ Char.ofNat 0x3c2 ∧ c ≠ Char.ofNat 0x3c3)
    (hsame : Forall₂ SameLower cs' cs) (h : piece <:+ cs) : piece <:+ cs' := by
  obtain ⟨before, rfl⟩ := h
  have hdrop := forall₂_drop_append cs' before piece hsame
  have heq : cs'.drop before.length = piece := by
    refine forall₂_eq_eq_eq ▸ (forall₂_iff_zip.mpr ⟨hdrop.length_eq, ?_⟩)
    intro c' c hmem
    have hc := hpiece c (of_mem_zip hmem).2
    rcases forall₂_zip hdrop hmem with heq | ⟨-, h | h⟩
    · exact heq
    · exact absurd h hc.1
    · exact absurd h hc.2
  exact heq ▸ drop_suffix before.length cs'

/-- The lower form of a text ends with the lower form of its last part, in some context. -/
theorem exists_lowerList_append (before cs last : List Char) :
    ∃ part, lowerList before (cs ++ last) = part ++ lowerList (cs.reverse ++ before) last := by
  induction cs generalizing before with
  | nil => exact ⟨[], rfl⟩
  | cons c cs ih =>
    obtain ⟨part, hpart⟩ := ih (c :: before)
    refine ⟨lowerChar before c (cs ++ last) ++ part, ?_⟩
    rw [cons_append, lowerList, hpart, append_assoc, reverse_cons, append_assoc]
    rfl

/-- **Whether the lower form of a path ends as Markdown files do is told by its last name.** -/
theorem endsWith_lower_append (cs cs' last : List Char) :
    endsWith (lower (String.ofList (cs ++ '/' :: last))) ".md" →
      endsWith (lower (String.ofList (cs' ++ '/' :: last))) ".md" := by
  have hslash : ∀ cs : List Char, ∃ part before,
      (lower (String.ofList (cs ++ '/' :: last))).toList =
        part ++ '/' :: lowerList before last := by
    intro cs
    obtain ⟨part, hpart⟩ := exists_lowerList_append [] cs ('/' :: last)
    refine ⟨part, '/' :: (cs.reverse ++ []), ?_⟩
    rw [lower, String.toList_ofList, String.toList_ofList, hpart]
    rfl
  obtain ⟨part, before, htext⟩ := hslash cs
  obtain ⟨part', before', htext'⟩ := hslash cs'
  rw [endsWith, endsWith, htext, htext', isSuffixOf_iff_suffix, isSuffixOf_iff_suffix,
    suffix_append_cons_iff (by decide), suffix_append_cons_iff (by decide)]
  exact suffix_of_sameLower (by decide) (forall₂_lowerList before' before last)

theorem startsWith_ofList (cs : List Char) (piece : String) :
    startsWith (String.ofList cs) piece = piece.toList.isPrefixOf cs := by
  rw [startsWith, String.toList_ofList]

end Text

namespace Import

def fromGitHub (directory : Location) : Location := directory.dropWhile (· != ".github")

/-- Two directories that are not told apart: lock files show the same of them, and the same
files below them are agent files. -/
structure LookAlike (d d' : Location) : Prop where
  fromGitHub_eq : fromGitHub d' = fromGitHub d
  isAgentFile_eq : ∀ names, names ≠ [] →
    isAgentFile (below d' names).text = isAgentFile (below d names).text

/-- Names that lead to something below a directory, without a detour. -/
structure Addresses (d names : Location) : Prop where
  isName : ∀ name ∈ d, Path.IsName name
  ne_dots : ∀ name ∈ d, name ≠ ".."
  down : ∀ name ∈ names, name ≠ ".."
  ne_nil : names ≠ []

variable {d d' names base : Location} {piece rest marker : List Char} {name : String}

theorem Addresses.resolve_eq (h : Addresses d names) (workdir : Path) :
    resolve workdir (below d names) = below d names :=
  resolve_below_of_forall_ne workdir h.ne_dots h.down

/-! ## Searching a spelled path -/

theorem toList_spelled_cons (name : String) (names : Location) (rest : List Char) :
    (spelled (name :: names)).toList ++ rest =
      '/' :: (name.toList ++ ((spelled names).toList ++ rest)) := by
  rw [spelled_cons, String.toList_append, String.toList_append, append_assoc, append_assoc]
  rfl

theorem head?_spelled_append (names : Location) (hrest : rest.head? = some '/') :
    ((spelled names).toList ++ rest).head? = some '/' := by
  cases names with
  | nil => exact hrest
  | cons name names => rw [toList_spelled_cons]; rfl

theorem head?_spelled (h : names ≠ []) : (spelled names).toList.head? = some '/' := by
  obtain ⟨name, names, rfl⟩ := exists_cons_of_ne_nil h
  rw [← append_nil (spelled (name :: names)).toList, toList_spelled_cons]
  rfl

theorem isSome_fromMarker (h : marker ≠ []) (cs : List Char) :
    (fromMarker marker cs).isSome = includesList marker cs := by
  induction cs with
  | nil => exact (isEmpty_eq_false_iff.mpr h).symm
  | cons c cs ih =>
    rw [fromMarker, includesList, ← ih]
    split <;> simp [*]

theorem fromMarker_append (name : List Char) (hname : '/' ∉ name) :
    fromMarker ('/' :: piece) (name ++ rest) = fromMarker ('/' :: piece) rest := by
  induction name with
  | nil => rfl
  | cons c name ih =>
    obtain ⟨hc, hrest⟩ := not_or.mp (mt mem_cons.mpr hname)
    rw [cons_append, fromMarker, isPrefixOf_cons_cons, beq_false_of_ne hc, Bool.false_and,
      if_neg Bool.false_ne_true]
    exact ih hrest

theorem not_isPrefixOf (hname : '/' ∉ name.toList) (hne : name ≠ ".github")
    (hrest : rest.head? = some '/') (piece : List Char) :
    ("/.github/".toList ++ piece).isPrefixOf ('/' :: (name.toList ++ rest)) = false := by
  rw [Bool.eq_false_iff]
  intro h
  obtain ⟨after, hafter⟩ := isPrefixOf_iff_prefix.mp h
  obtain ⟨rest, rfl⟩ := head?_eq_some_iff.mp hrest
  have htail : ".github".toList ++ '/' :: (piece ++ after) = name.toList ++ '/' :: rest := by
    simpa using congrArg tail hafter
  -- Both sides are cut before their second slash.
  have heq := congrArg (takeWhile (· != '/')) htail
  rw [takeWhile_append_cons (by decide), takeWhile_append_cons hname] at heq
  exact hne (String.toList_inj.mp heq.symm)

theorem fromGitHub_cons_of_ne (h : name ≠ ".github") (names : Location) :
    fromGitHub (name :: names) = fromGitHub names :=
  dropWhile_cons_of_pos (by simpa using h)

theorem fromGitHub_cons (names : Location) : fromGitHub (".github" :: names) = ".github" :: names :=
  dropWhile_cons_of_neg (by simp)

theorem fromGitHub_cases (d : Location) :
    fromGitHub d = [] ∨ ∃ shown, fromGitHub d = ".github" :: shown := by
  induction d with
  | nil => exact .inl rfl
  | cons name d ih =>
    by_cases h : name = ".github"
    · rw [h, fromGitHub_cons]
      exact .inr ⟨d, rfl⟩
    · rw [fromGitHub_cons_of_ne h]
      exact ih

theorem isName_of_mem_fromGitHub (hd : ∀ name ∈ d, Path.IsName name) :
    ∀ name ∈ fromGitHub d, Path.IsName name :=
  fun name hname => hd name ((dropWhile_sublist _).subset hname)

/-- What comes before the first `.github` of a directory is not searched for it. -/
theorem fromMarker_spelled (hmarker : "/.github/".toList <+: marker)
    (hd : ∀ name ∈ d, Path.IsName name) (hrest : rest.head? = some '/') :
    fromMarker marker ((spelled d).toList ++ rest) =
      fromMarker marker ((spelled (fromGitHub d)).toList ++ rest) := by
  obtain ⟨piece, rfl⟩ := hmarker
  induction d with
  | nil => rfl
  | cons name d ih =>
    obtain ⟨hname, hd⟩ := forall_mem_cons.mp hd
    by_cases heq : name = ".github"
    · rw [heq, fromGitHub_cons]
    · rw [fromGitHub_cons_of_ne heq, toList_spelled_cons, fromMarker,
        not_isPrefixOf hname.2 heq (head?_spelled_append d hrest), if_neg Bool.false_ne_true,
        ← ih hd]
      exact fromMarker_append name.toList hname.2

/-! ## Shown paths -/

/-- The part of a path from its first `.github` on. -/
theorem Addresses.fromMarker_eq (h : Addresses d names) :
    fromMarker "/.github/".toList (below d names).text.toList =
      fromMarker "/.github/".toList
        ((spelled (fromGitHub d)).toList ++ (spelled names).toList) := by
  rw [text_below_of_ne_nil d h.ne_nil, String.toList_append,
    fromMarker_spelled prefix_rfl h.isName (head?_spelled h.ne_nil)]

theorem startsWith_below (hnames : names ≠ []) :
    startsWith (below d names).text ".github/" = false := by
  obtain ⟨cs, hcs⟩ := head?_eq_some_iff.mp (head?_spelled_append d (head?_spelled hnames))
  rw [text_below_of_ne_nil d hnames, startsWith, String.toList_append, hcs]
  rfl

theorem isPrefixOf_of_fromMarker {cs tail : List Char}
    (h : fromMarker "/.github/".toList cs = some tail) :
    ".github/".toList.isPrefixOf tail := by
  induction cs with
  | nil => cases h
  | cons c cs ih =>
    rw [fromMarker] at h
    split at h
    · next hstart =>
      cases h
      exact (Bool.and_eq_true_iff.mp hstart).2
    · exact ih h

theorem LookAlike.shownPath_eq (h : LookAlike d d') (workdir workdir' : Path)
    (ha : Addresses d names) (ha' : Addresses d' names) (hbase : ∀ name ∈ base, name ≠ "..") :
    shownPath workdir' (below d' names) (some (below d' base)) =
      shownPath workdir (below d names) (some (below d base)) := by
  unfold shownPath
  rw [ha.fromMarker_eq, ha'.fromMarker_eq, h.fromGitHub_eq, startsWith_below ha.ne_nil,
    startsWith_below ha.ne_nil]
  split
  · rfl
  · dsimp only
    rw [relativeTo_below workdir' ha'.ne_dots ha.down hbase,
      relativeTo_below workdir ha.ne_dots ha.down hbase,
      if_neg Bool.false_ne_true, if_neg Bool.false_ne_true]

/-! ## Agent files -/

/-- A character as it counts in the path of an agent file. -/
def slashed (c : Char) : Char := if c = '\\' then '/' else c

theorem map_slashed (h : '\\' ∉ piece) : piece.map slashed = piece := by
  induction piece with
  | nil => rfl
  | cons c piece ih =>
    obtain ⟨hc, hrest⟩ := not_or.mp (mt mem_cons.mpr h)
    rw [map_cons, ih hrest, slashed, if_neg (Ne.symm hc)]

theorem isAgentFile_below (hd : ∀ name ∈ d, Path.IsName name)
    (hplain : ∀ name ∈ d, '\\' ∉ name.toList) (hnames : names ≠ []) :
    isAgentFile (below d names).text =
      ((fromMarker "/.github/agents/".toList
          ((spelled (fromGitHub d)).toList ++ (spelled names).toList.map slashed)).isSome &&
        endsWith (lower (String.ofList
          ((spelled d).toList ++ (spelled names).toList.map slashed))) ".md") := by
  have htext : replaceChar (below d names).text '\\' '/' =
      String.ofList ((spelled d).toList ++ (spelled names).toList.map slashed) := by
    have hmem : '\\' ∉ (spelled d).toList := by
      rw [mem_toList_spelled (by decide)]
      rintro ⟨name, hname, hchar⟩
      exact hplain name hname hchar
    rw [replaceChar, text_below_of_ne_nil d hnames, String.toList_append, map_append]
    exact congrArg (fun cs => String.ofList (cs ++ (spelled names).toList.map slashed))
      (map_slashed hmem)
  have hrest : ((spelled names).toList.map slashed).head? = some '/' := by
    rw [head?_map, head?_spelled hnames]
    rfl
  have hstart : startsWith
      (String.ofList ((spelled d).toList ++ (spelled names).toList.map slashed)) "/" =
        true := by
    obtain ⟨cs, hcs⟩ := head?_eq_some_iff.mp (head?_spelled_append d hrest)
    rw [hcs, startsWith_ofList]
    rfl
  unfold isAgentFile
  dsimp only
  rw [htext, hstart, if_pos rfl, includes, @String.toList_ofList (_ ++ _),
    ← isSome_fromMarker (by decide), fromMarker_spelled (by decide) hd hrest]

/-- **Without a backslash, directories look alike when lock files show the same of them.** -/
theorem lookAlike_of_fromGitHub_eq (hd : ∀ name ∈ d, Path.IsName name)
    (hd' : ∀ name ∈ d', Path.IsName name) (hplain : ∀ name ∈ d, '\\' ∉ name.toList)
    (hplain' : ∀ name ∈ d', '\\' ∉ name.toList) (h : fromGitHub d' = fromGitHub d) :
    LookAlike d d' where
  fromGitHub_eq := h
  isAgentFile_eq names hnames := by
    have hlast : ∃ first last, (spelled names).toList.map slashed = first ++ '/' :: last := by
      refine ⟨(spelled names.dropLast).toList.map slashed,
        (names.getLast hnames).toList.map slashed, ?_⟩
      conv_lhs => rw [← dropLast_append_getLast hnames]
      rw [spelled_append, String.toList_append, map_append, spelled_cons,
        String.toList_append, String.toList_append]
      simp [spelled, slashed]
    obtain ⟨first, last, hlast⟩ := hlast
    rw [isAgentFile_below hd hplain hnames, isAgentFile_below hd' hplain' hnames, h, hlast]
    refine congrArg (_ && ·) (Bool.eq_iff_iff.mpr ?_)
    rw [← append_assoc, ← append_assoc]
    exact ⟨endsWith_lower_append _ _ last, endsWith_lower_append _ _ last⟩

end Import

/-! ## The source in the header -/

namespace Compile

open Import

variable {d d' names : Location}

theorem shownSource_below (workdir : Path) (h : Addresses d names) :
    shownSource workdir (below d names) =
      match fromMarker "/.github/".toList
        ((spelled (fromGitHub d)).toList ++ (spelled names).toList) with
      | some tail => String.ofList tail
      | none => names.getLast h.ne_nil := by
  unfold shownSource shownPath
  dsimp only
  rw [h.resolve_eq, h.fromMarker_eq, name_below d h.ne_nil]
  cases htail : fromMarker _ ((spelled (fromGitHub d)).toList ++ _) with
  | some tail =>
    dsimp only
    rw [startsWith_ofList, isPrefixOf_of_fromMarker htail, if_pos rfl]
  | none =>
    dsimp only
    rw [startsWith_below h.ne_nil, if_neg Bool.false_ne_true, ite_self]

theorem shownSource_eq (h : LookAlike d d') (workdir workdir' : Path) (ha : Addresses d names)
    (ha' : Addresses d' names) :
    shownSource workdir' (below d' names) = shownSource workdir (below d names) := by
  rw [shownSource_below workdir ha, shownSource_below workdir' ha', h.fromGitHub_eq]

theorem append_of_fromMarker {marker cs tail : List Char} (h : fromMarker marker cs = some tail) :
    ∃ c before, cs = c :: before ++ tail := by
  induction cs with
  | nil => cases h
  | cons c cs ih =>
    rw [fromMarker] at h
    split at h
    · cases h
      exact ⟨c, [], rfl⟩
    · obtain ⟨c', before, rfl⟩ := ih h
      exact ⟨c, c' :: before, rfl⟩

theorem not_mem_shownSource (workdir : Path) (ha : Addresses d names) {c : Char} (hc : c ≠ '/')
    (h : ∀ name ∈ d ++ names, c ∉ name.toList) :
    c ∉ (shownSource workdir (below d names)).toList := by
  rw [shownSource_below workdir ha, ← ha.fromMarker_eq]
  intro hmem
  split at hmem
  · next tail htail =>
    rw [String.toList_ofList] at hmem
    obtain ⟨first, before, hparts⟩ := append_of_fromMarker htail
    obtain ⟨name, hname, hchar⟩ := (mem_toList_text_below hc).mp
      (hparts ▸ mem_append_right _ hmem)
    exact h name hname hchar
  · exact h _ (mem_append_right d (getLast_mem ha.ne_nil)) hmem

theorem shownSource_ne_empty (workdir : Path) (ha : Addresses d names)
    (hname : (below d names).name ≠ "") :
    shownSource workdir (below d names) ≠ "" := by
  rw [shownSource_below workdir ha]
  split
  · next tail htail =>
    have hstart := isPrefixOf_of_fromMarker htail
    intro hempty
    rw [String.ofList_eq_empty_iff.mp hempty] at hstart
    cases hstart
  · rwa [← name_below d ha.ne_nil]

/-- Where nothing of the directory is shown, the header shows less than the names below it. -/
theorem length_shownSource_lt (workdir : Path) (ha : Addresses d names) (h : fromGitHub d = []) :
    (shownSource workdir (below d names)).toList.length <
      (spelled names).toList.length := by
  rw [shownSource_below workdir ha, h]
  split
  · next tail htail =>
    rw [String.toList_ofList]
    obtain ⟨c, before, hparts⟩ := append_of_fromMarker htail
    have hlength := congrArg length hparts
    have hnone : (spelled []).toList.length = 0 := rfl
    simp only [length_append, length_cons] at hlength
    omega
  · conv_rhs => rw [← dropLast_append_getLast ha.ne_nil]
    rw [spelled_append, spelled_cons]
    simp only [String.toList_append, length_append]
    have hslash : "/".toList.length = 1 := rfl
    omega

/-- Where some of the directory is shown, the header shows that and all names below it. -/
theorem cons_shownSource (workdir : Path) (ha : Addresses d names) {shown : Location}
    (h : fromGitHub d = ".github" :: shown) :
    '/' :: (shownSource workdir (below d names)).toList =
      (spelled (fromGitHub d)).toList ++ (spelled names).toList := by
  have hfound : ∀ rest : List Char, rest.head? = some '/' →
      fromMarker "/.github/".toList ('/' :: (".github".toList ++ rest)) =
        some (".github".toList ++ rest) := by
    intro rest hrest
    obtain ⟨tail, rfl⟩ := head?_eq_some_iff.mp hrest
    rfl
  rw [shownSource_below workdir ha, h, toList_spelled_cons,
    hfound _ (head?_spelled_append shown (head?_spelled ha.ne_nil))]
  dsimp only
  rw [String.toList_ofList]

/-- **The header tells what lock files show of the directory.** -/
theorem fromGitHub_eq_of_shownSource_eq (workdir workdir' : Path) (ha : Addresses d names)
    (ha' : Addresses d' names)
    (h : shownSource workdir (below d names) = shownSource workdir' (below d' names)) :
    fromGitHub d = fromGitHub d' := by
  -- A header that shows some of a directory is longer than one that shows nothing of it.
  have hlonger : ∀ (workdir : Path) {d shown}, Addresses d names →
      fromGitHub d = ".github" :: shown → (spelled names).toList.length ≤
        (shownSource workdir (below d names)).toList.length := by
    intro workdir d shown ha hshown
    have hlength := congrArg length (cons_shownSource workdir ha hshown)
    rw [hshown, toList_spelled_cons] at hlength
    simp only [length_cons, length_append] at hlength
    omega
  rcases fromGitHub_cases d with hnone | ⟨shown, hshown⟩ <;>
    rcases fromGitHub_cases d' with hnone' | ⟨shown', hshown'⟩
  · rw [hnone, hnone']
  · have hlt := length_shownSource_lt workdir ha hnone
    have hle := hlonger workdir' ha' hshown'
    rw [h] at hlt
    omega
  · have hlt := length_shownSource_lt workdir' ha' hnone'
    have hle := hlonger workdir ha hshown
    rw [h] at hle
    omega
  · have hlist := cons_shownSource workdir ha hshown
    rw [h, cons_shownSource workdir' ha' hshown'] at hlist
    have hspelled := String.toList_inj.mp (append_cancel_right hlist)
    have htext : ∀ {names : Location}, names ≠ [] →
        (below [] names).text = spelled names := by
      intro names hne
      rw [text_below_of_ne_nil [] hne]
      exact String.empty_append
    have hpaths : below [] (fromGitHub d) = below [] (fromGitHub d') := by
      refine text_inj (isName_of_mem_fromGitHub ha.isName) (isName_of_mem_fromGitHub ha'.isName)
        rfl rfl ?_
      rw [htext (by simp [hshown]), htext (by simp [hshown']), hspelled]
    exact below_inj.mp hpaths

end Compile

end FlowLock
