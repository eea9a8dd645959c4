import FlowLock.Markdown
import FlowLock.Proofs.Text.Blank
import FlowLock.Proofs.Text.Split

/-!
# Sections of a document

A section is the piece of a document from its heading to the next heading of the same or a higher
level.  Taking it out cuts the blanks at its end, which may cut into its last line; what is left of
that line is a heading only if the line was one.  So a section is a document of its own, and the
section with its title in it is the whole of it.
-/

namespace FlowLock.Markdown

open List Text

variable {blanks : List Char}

/-! ## Blanks after a line -/

theorem dropWhile_blanks (h : blanks.all isBlank) : blanks.dropWhile isBlank = [] := by
  simpa using h

theorem dropWhile_hashes (cs : List Char) (h : blanks.all isBlank) :
    (cs ++ blanks).dropWhile (· == '#') = cs.dropWhile (· == '#') ++ blanks := by
  rw [dropWhile_append]
  split
  · next hnone =>
    rw [isEmpty_iff.mp hnone, nil_append, dropWhile_eq_self_iff]
    intro hpos hash
    have hblank := all_eq_true.mp h _ (getElem_mem hpos)
    rw [eq_of_beq hash] at hblank
    exact absurd hblank (by decide)
  · rfl

theorem isClosing_append (cs : List Char) (h : blanks.all isBlank) :
    isClosing (cs ++ blanks) = isClosing cs := by
  unfold isClosing
  rw [dropWhile_append]
  split
  · next hnone => rw [isEmpty_iff.mp hnone, dropWhile_blanks h]
  · rw [dropWhile_hashes _ h, all_append, h, Bool.and_true]

theorem beforeClosing_append (cs : List Char) (h : blanks.all isBlank) :
    beforeClosing (cs ++ blanks) = beforeClosing cs := by
  induction cs with
  | nil =>
    cases blanks with
    | nil => rfl
    | cons c blanks =>
      have hclosing : isClosing (c :: blanks) := by simp [isClosing, dropWhile_blanks h]
      rw [nil_append, beforeClosing, beforeClosing, if_pos hclosing]
  | cons c cs ih =>
    rw [cons_append, beforeClosing, beforeClosing, ih, ← cons_append, isClosing_append _ h]

/-- Blanks after a line do not change its heading; they can make one without a title. -/
theorem heading?_append (cs : List Char) (h : blanks.all isBlank) :
    heading? (String.ofList (cs ++ blanks)) = heading? (String.ofList cs) ∨
      heading? (String.ofList cs) = none ∧
        ∀ g ∈ heading? (String.ofList (cs ++ blanks)), g.title = "" := by
  have hhashes : (cs ++ blanks).takeWhile (· == '#') = cs.takeWhile (· == '#') := by
    have hsplit := @takeWhile_append_dropWhile _ (· == '#') (cs ++ blanks)
    rw [dropWhile_hashes cs h, ← append_assoc] at hsplit
    exact append_cancel_right ((append_cancel_right hsplit).trans takeWhile_append_dropWhile.symm)
  unfold heading?
  dsimp only
  rw [String.toList_ofList, String.toList_ofList, dropWhile_hashes cs h, hhashes]
  cases cs.dropWhile (· == '#') with
  | nil =>
    refine .inr ⟨by simp, fun g hg => ?_⟩
    rw [nil_append, dropWhile_blanks h] at hg
    split at hg
    · rw [← Option.some.inj hg]
      rfl
    · cases hg
  | cons c rest =>
    have htitle : beforeClosing ((c :: rest ++ blanks).dropWhile isBlank) =
        beforeClosing ((c :: rest).dropWhile isBlank) := by
      rw [dropWhile_append]
      split
      · next hnone => rw [isEmpty_iff.mp hnone, dropWhile_blanks h]
      · exact beforeClosing_append _ h
    exact .inl (by rw [htitle]; rfl)

/-! ## Lines of a trimmed text -/

/-- Where a text is cut in two, so is one of its lines. -/
theorem exists_splitList_append (sep : Char) (cs ds : List Char) :
    ∃ before first second after, splitList sep cs = before ++ [first] ∧
      splitList sep (cs ++ ds) = before ++ (first ++ second) :: after ∧
      splitList sep ds = second :: after := by
  induction cs with
  | nil =>
    obtain ⟨second, after, h⟩ := exists_cons_of_ne_nil (splitList_ne_nil sep ds)
    exact ⟨[], [], second, after, rfl, h, h⟩
  | cons c cs ih =>
    obtain ⟨before, first, second, after, hcs, hall, hds⟩ := ih
    rw [cons_append, splitList, splitList, hcs, hall]
    split
    · exact ⟨[] :: before, first, second, after, rfl, rfl, hds⟩
    · cases before with
      | nil => exact ⟨[], c :: first, second, after, rfl, rfl, hds⟩
      | cons piece before => exact ⟨(c :: piece) :: before, first, second, after, rfl, rfl, hds⟩

theorem exists_lines_trimEnd (text : String) :
    ∃ before first blanks after, lines (trimEnd text) = before ++ [String.ofList first] ∧
      lines text = before ++ String.ofList (first ++ blanks) :: after ∧ blanks.all isBlank := by
  have hmore : dropEndWhile isBlank text.toList ++ text.toList.rtakeWhile isBlank = text.toList :=
    rdropWhile_append_rtakeWhile
  obtain ⟨before, first, second, after, htrim, hall, hsecond⟩ := exists_splitList_append '\n'
    (dropEndWhile isBlank text.toList) (text.toList.rtakeWhile isBlank)
  refine ⟨before.map String.ofList, first, second, after.map String.ofList, ?_, ?_, ?_⟩
  · rw [lines, Text.splitOn, trimEnd, trimEndWhere, String.toList_ofList, htrim, map_append]
    rfl
  · rw [lines, Text.splitOn, ← hmore, hall, map_append]
    rfl
  · refine all_eq_true.mpr fun c hc => ?_
    have hmem : c ∈ (splitList '\n' (text.toList.rtakeWhile isBlank)).flatMap (· ++ ['\n']) := by
      simp [hsecond, hc]
    rw [flatMap_splitList, mem_append, mem_singleton] at hmem
    rcases hmem with hmem | rfl
    · exact mem_rtakeWhile_imp hmem
    · decide

theorem trimEnd_append_line (text : String) : trimEnd (trimEnd text ++ "\n") = trimEnd text := by
  have hend : ∀ cs, dropEndWhile isBlank cs = cs.rdropWhile isBlank := fun _ => rfl
  rw [trimEnd, trimEnd, trimEndWhere, trimEndWhere, String.toList_append, String.toList_ofList,
    hend, hend]
  exact congrArg _ ((rdropWhile_concat_pos _ _ _ (by decide)).trans (rdropWhile_idempotent _ _))

/-! ## Sections -/

variable {text title first : String} {rest : List String} {g : Heading}

/-- **What is left of a section after trimming** starts with its heading and has no other heading of
its level or a higher one. -/
theorem exists_lines_section (hfirst : heading? first = some g) (hsome : g.title ≠ "")
    (hlines : lines text = first :: rest)
    (hrest : ∀ line ∈ rest, endsSection g.level line = false) :
    ∃ kept others, lines (trimEnd text ++ "\n") = kept :: others ∧
      heading? kept = some g ∧ ∀ line ∈ others, endsSection g.level line = false := by
  obtain ⟨before, last, blanks, after, htrim, hall, hblanks⟩ := exists_lines_trimEnd text
  rw [hlines] at hall
  have hsplit : lines (trimEnd text ++ "\n") = before ++ [String.ofList last, ""] := by
    have h := lines_append (trimEnd text) ""
    rwa [htrim, append_assoc, String.append_empty] at h
  have hnone : endsSection g.level "" = false := rfl
  have hlast := heading?_append last hblanks
  cases before with
  | nil =>
    obtain ⟨rfl, rfl⟩ := cons.inj hall
    refine ⟨_, _, hsplit, ?_, by simpa using hnone⟩
    obtain heq | ⟨-, hempty⟩ := hlast
    · rw [← heq, hfirst]
    · exact absurd (hempty g hfirst) hsome
  | cons line before =>
    obtain ⟨rfl, rfl⟩ := cons.inj hall
    refine ⟨_, _, hsplit, hfirst, fun line hline => ?_⟩
    rw [append_eq, mem_append, mem_cons, mem_singleton] at hline
    obtain hline | rfl | rfl := hline
    · exact hrest line (mem_append_left _ hline)
    · -- What is left of the last line is a heading only if the line was one.
      obtain heq | ⟨hnot, -⟩ := hlast
      · rw [endsSection, ← heq]
        exact hrest _ (mem_append_right _ mem_cons_self)
      · rw [endsSection, hnot]
        rfl
    · exact hnone

/-- Where a section stands: from the first line with its title to the next heading of its level or
a higher one. -/
structure IsSection (all : List String) (title first : String) (inner : List String)
    (g : Heading) : Prop where
  headed : heading? first = some g
  titled : g.title = titleKey title
  deeper : ∀ line ∈ inner, endsSection g.level line = false
  stands : ∃ before after, all = before ++ first :: inner ++ after ∧
    (∀ line ∈ before, isTitled (titleKey title) line = false) ∧
    ∀ next ∈ after.head?, endsSection g.level next

theorem isTitled_iff {line : String} :
    isTitled title line ↔ ∃ g, heading? line = some g ∧ g.title = title := by
  unfold isTitled
  cases heading? line <;> simp

/-- A list up to the first member with a property. -/
theorem takeWhile_not_cases {α : Type} (p : α → Bool) (xs : List α) :
    ∃ rest, xs = xs.takeWhile (fun x => !p x) ++ rest ∧ xs.dropWhile (fun x => !p x) = rest ∧
      (∀ x ∈ xs.takeWhile fun x => !p x, p x = false) ∧ ∀ x ∈ rest.head?, p x := by
  refine ⟨_, takeWhile_append_dropWhile.symm, rfl, fun x hx => ?_, fun x hx => ?_⟩
  · simpa using mem_takeWhile_imp hx
  · have hhead := head?_dropWhile_not (fun x => !p x) xs
    rw [hx] at hhead
    simpa using hhead

theorem section?_cases (text title : String) :
    (section? text title = none ∧ ∀ line ∈ lines text, isTitled (titleKey title) line = false) ∨
      ∃ first inner g, IsSection (lines text) title first inner g ∧
        Markdown.section? text title = some (trimEnd (unlines (first :: inner)) ++ "\n") := by
  obtain ⟨rest, hlines, hfound, hbefore, hhead⟩ :=
    takeWhile_not_cases (isTitled (titleKey title)) (lines text)
  cases rest with
  | nil =>
    rw [append_nil] at hlines
    exact .inl ⟨by rw [section?, hfound], hlines ▸ hbefore⟩
  | cons first rest =>
    obtain ⟨g, hfirst, htitle⟩ := isTitled_iff.mp (hhead first rfl)
    obtain ⟨after, hrest, -, hinner, hnext⟩ := takeWhile_not_cases (endsSection g.level) rest
    refine .inr ⟨first, rest.takeWhile fun line => !endsSection g.level line, g,
      ⟨hfirst, htitle, hinner, _, after, ?_, hbefore, hnext⟩, ?_⟩
    · rw [append_assoc, cons_append, ← hrest]
      exact hlines
    · rw [section?, hfound]
      simp [hfirst]

/-- A document that starts with the heading and has no other one of its level or a higher one is a
section as a whole. -/
theorem section?_of_lines (hlines : lines text = first :: rest) (hfirst : heading? first = some g)
    (htitle : g.title = titleKey title) (hrest : ∀ line ∈ rest, endsSection g.level line = false) :
    Markdown.section? text title = some (trimEnd text ++ "\n") := by
  have hjoin : unlines (first :: rest) = text :=
    ((splitOn_eq_iff (cons_ne_nil first rest)).mp hlines).1.symm
  have htitled : isTitled (titleKey title) first := isTitled_iff.mpr ⟨g, hfirst, htitle⟩
  have hinner : rest.takeWhile (fun line => !endsSection g.level line) = rest :=
    takeWhile_eq_self_iff.mpr fun line hline => by simp [hrest line hline]
  simp [section?, hlines, htitled, hfirst, hinner, hjoin]

theorem lower_ne_empty {s : String} (h : s ≠ "") : lower s ≠ "" := by
  obtain ⟨c, cs, hs⟩ := exists_cons_of_ne_nil (mt String.toList_eq_nil_iff.mp h)
  have hchar : lowerChar [] c cs ≠ [] := by
    unfold lowerChar
    split_ifs <;> exact cons_ne_nil _ _
  rw [lower, hs, lowerList]
  simp [hchar]

/-- **A section is taken out whole.**  Under a title that is not blank nothing is found exactly when
no heading has it.  Otherwise the section goes from the first heading with the title to the next
one of its level or a higher one; it has no other such heading in it, and is its own section. -/
theorem section_taken_whole (text title : String) (h : trim title ≠ "") :
    (section? text title = none ↔
        ∀ line ∈ lines text, isTitled (titleKey title) line = false) ∧
      ∀ result, section? text title = some result →
        ∃ first inner g, IsSection (lines text) title first inner g ∧
          result = trimEnd (unlines (first :: inner)) ++ "\n" ∧
          (∃ kept others, lines result = kept :: others ∧ heading? kept = some g ∧
            ∀ line ∈ others, endsSection g.level line = false) ∧
          Markdown.section? result title = some result := by
  rcases section?_cases text title with ⟨hnone, hall⟩ | ⟨first, inner, g, hsection, hsome⟩
  · exact ⟨⟨fun _ => hall, fun _ => hnone⟩, by simp [hnone]⟩
  · obtain ⟨before, after, hlines, -⟩ := hsection.stands
    have htitled := isTitled_iff.mpr ⟨g, hsection.headed, hsection.titled⟩
    refine ⟨⟨by simp [hsome], fun hall => ?_⟩, fun result hresult => ?_⟩
    · simp [hall first (by simp [hlines])] at htitled
    · obtain rfl := Option.some.inj (hsome.symm.trans hresult)
      have hinner : lines (unlines (first :: inner)) = first :: inner := by
        refine (splitOn_eq_iff (cons_ne_nil _ _)).mpr ⟨rfl, fun line hline => ?_⟩
        have hfree := ((splitOn_eq_iff (by simp)).mp hlines).2
        exact hfree line (mem_append_left _ (mem_append_right _ hline))
      obtain ⟨kept, others, hresult, hheading, hothers⟩ := exists_lines_section hsection.headed
        (hsection.titled ▸ lower_ne_empty h) hinner hsection.deeper
      refine ⟨first, inner, g, hsection, rfl, ⟨kept, others, hresult, hheading, hothers⟩, ?_⟩
      rw [section?_of_lines hresult hheading hsection.titled hothers, trimEnd_append_line]

theorem section_taken_whole_nested :
    Markdown.section? "# One #\n## Two\n \n# Three" " one " = some "# One #\n## Two\n" ∧
      Markdown.section? "# One #\n## Two\n" " one " = some "# One #\n## Two\n" := by
  have hsection : section? "# One #\n## Two\n \n# Three" " one " = some "# One #\n## Two\n" := by
    decide
  obtain ⟨-, -, -, -, -, -, hagain⟩ := (section_taken_whole _ _ (by decide)).2 _ hsection
  exact ⟨hsection, hagain⟩

end FlowLock.Markdown
