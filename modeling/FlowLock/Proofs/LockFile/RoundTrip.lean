import FlowLock.LockFile.Render
import FlowLock.Proofs.Yaml.Limits
import FlowLock.Setting

/-!
# Lock files load back

A lock file is read back as the workflow that it was written for.  The header is made of
comments, so all that matters of it is that no field ends its line and that a document may
hold its characters.  A description may have several lines.
-/

namespace FlowLock.Text

theorem mem_of_mem_wideLinesList {cs : List Char} :
    ∀ line ∈ wideLinesList cs, ∀ c ∈ line, c ∈ cs ∧ isWideBreak c = false := by
  fun_induction wideLinesList cs <;> grind

end FlowLock.Text

namespace FlowLock.LockFile

open Yaml (IsRemark isAcceptable isBreak lineText)

/-! ## Headers -/

def isCommentText (s : String) : Bool := s.toList.all fun c => isAcceptable c && !isBreak c

/-- Whether a header is made of comments.  The lines of a description are comments of their
own, whatever ends them. -/
def Header.isComment (h : Header) : Bool :=
  [h.hash, h.version, h.source, h.workflowVersion].all isCommentText &&
    h.description.toList.all fun c => isAcceptable c || Text.isWideBreak c

variable {s : String}

theorem isCommentText_iff :
    isCommentText s ↔ ∀ c ∈ s.toList, isAcceptable c ∧ isBreak c = false := by
  simp only [isCommentText, List.all_eq_true, Bool.and_eq_true, Bool.not_eq_true']

theorem isCommentText_append {t : String} (hs : isCommentText s) (ht : isCommentText t) :
    isCommentText (s ++ t) := by
  rw [isCommentText_iff] at hs ht ⊢
  rw [String.toList_append, List.forall_mem_append]
  exact ⟨hs, ht⟩

theorem isRemark_of_isPrefix {line : List Char} {text : String} (h : line <+: '#' :: text.toList)
    (htext : isCommentText text) : IsRemark line := by
  rw [isCommentText_iff] at htext
  have hall : ∀ c ∈ '#' :: text.toList, isAcceptable c ∧ isBreak c = false :=
    List.forall_mem_cons.mpr ⟨by decide, htext⟩
  refine ⟨fun c hc => (hall c (h.subset hc)).1, fun c hc => (hall c (h.subset hc)).2, ?_⟩
  intro c hc
  cases line with
  | nil => cases hc
  | cons x line =>
    obtain rfl := Option.some.inj hc
    exact (List.cons_prefix_cons.mp h).1

variable {line : String}

theorem isRemark_of_head (h : isCommentText line) (hhead : line.toList.head? = some '#') :
    IsRemark line.toList := by
  rw [isCommentText_iff] at h
  refine ⟨fun c hc => (h c hc).1, fun c hc => (h c hc).2, fun c hc => ?_⟩
  rw [hhead] at hc
  exact (Option.some.inj hc).symm

variable {mark : String}

theorem isRemark_append {rest : String} (hmark : isCommentText mark) (hrest : isCommentText rest)
    (hhead : mark.toList.head? = some '#') : IsRemark (mark ++ rest).toList := by
  refine isRemark_of_head (isCommentText_append hmark hrest) ?_
  rw [String.toList_append, List.head?_append, hhead]
  rfl

theorem isRemark_empty : IsRemark "".toList := ⟨by simp, by simp, by simp⟩

theorem isWideBreak_of_isBreak {c : Char} (h : isBreak c) : Text.isWideBreak c := by
  simp only [isBreak, Bool.or_eq_true, beq_iff_eq] at h
  obtain (((rfl | rfl) | h) | h) | h := h
  · decide
  · decide
  all_goals
    rw [Text.isWideBreak, h]
    decide

variable {description : String}

theorem isRemark_commentLine (h : ∀ c ∈ description.toList, (isAcceptable c || Text.isWideBreak c))
    (hline : line ∈ Text.wideLines (Text.trim description)) :
    IsRemark (commentLine line).toList := by
  obtain ⟨cs, hcs, rfl⟩ := List.mem_map.mp hline
  refine @isRemark_of_isPrefix _ (" " ++ String.ofList cs) ?_ ?_
  · rw [commentLine, Text.trimEnd, Text.trimEndWhere, String.toList_ofList, String.toList_append,
      String.toList_append]
    exact Text.dropEndWhile_isPrefix _ _
  · refine isCommentText_append (by decide) ?_
    rw [isCommentText_iff, String.toList_ofList]
    intro c hc
    obtain ⟨hmem, hbreak⟩ := Text.mem_of_mem_wideLinesList cs hcs c hc
    have hc := h c ((Text.trim_isInfix _).subset hmem)
    rw [hbreak, Bool.or_false] at hc
    refine ⟨hc, Bool.eq_false_of_not_eq_true fun htrue => ?_⟩
    rw [isWideBreak_of_isBreak htrue] at hbreak
    cases hbreak

theorem Header.isRemark_lines {h : Header} (hcomment : h.isComment) :
    ∀ line ∈ h.lines, IsRemark line.toList := by
  rw [isComment, Bool.and_eq_true, List.all_eq_true, List.all_eq_true] at hcomment
  obtain ⟨hfields, hdescription⟩ := hcomment
  simp only [List.forall_mem_cons] at hfields
  obtain ⟨hhash, hversion, hsource, hworkflow, -⟩ := hfields
  have hmark : IsRemark "#".toList := isRemark_of_head (by decide) (by decide)
  simp only [lines, List.forall_mem_append, List.forall_mem_cons]
  refine ⟨⟨⟨⟨⟨?_, hmark, ?_, ?_, by simp⟩, ?_⟩, ?_⟩, ?_⟩, hmark, ?_, isRemark_empty, by simp⟩
  · rw [String.append_assoc]
    exact isRemark_append (by decide) (isCommentText_append hversion (by decide)) (by decide)
  · exact isRemark_of_head (by decide) (by decide)
  · exact isRemark_of_head (by decide) (by decide)
  · split
    · simp
    · exact List.forall_mem_cons.mpr ⟨hmark, List.forall_mem_map.mpr fun line hline =>
        isRemark_commentLine hdescription hline⟩
  · split
    · simp
    · have hline := isRemark_append (by decide) hsource (by decide : "# Source: ".toList.head? = _)
      exact List.forall_mem_cons.mpr ⟨hmark, List.forall_mem_singleton.mpr hline⟩
  · split
    · simp
    · have hline := isRemark_append (by decide) hworkflow
        (by decide : "# Workflow version: ".toList.head? = _)
      exact List.forall_mem_singleton.mpr hline
  · exact isRemark_append (by decide) hhash (by decide)

/-! ## Lock files -/

theorem toList_unlines {lines : List String} (h : lines ≠ []) :
    (Text.unlines lines ++ "\n").toList = lineText (lines.map String.toList) := by
  rw [Text.unlines, String.toList_append, String.toList_intercalate]
  induction lines with
  | nil => exact absurd rfl h
  | cons line lines ih =>
    cases lines with
    | nil =>
      rw [List.map_cons, List.map_nil, List.intercalate_singleton, Yaml.lineText_cons]
      rfl
    | cons next lines =>
      rw [List.map_cons, List.map_cons, List.intercalate_cons_cons, Yaml.lineText_cons]
      have hrest := ih (List.cons_ne_nil next lines)
      rw [List.map_cons] at hrest
      rw [← hrest]
      simp only [List.append_assoc]
      rfl

theorem Header.toList_text (h : Header) : h.text.toList = lineText (h.lines.map String.toList) :=
  toList_unlines (by simp [lines])

theorem toList_render (h : Header) (workflow : Value) : (render h workflow).toList =
      lineText (h.lines.map String.toList) ++ (Yaml.dump workflow).toList := by
  rw [render, String.toList_append, Header.toList_text]

def longHeader : Header :=
  { hash := "h", version := "v", source := "a.md", description := "one\ntwo" }

/-- A workflow with texts that look like other things: flags, numbers, marks and comments,
lines that start or end with blanks, and a key of several lines. -/
def lookalikes : Entries :=
  [(.str "on", .map [(.str "push", .null), (.str "null", .bool true)]),
   (.str "env", .map [(.str "FLAG", .str "true"), (.str "COUNT", .str "012"), (.str "N", .int (-7))]),
   (.str "jobs", .list [.str "a # b", .str " first\n\n  second \n\n", .str "", .str "- x: y",
     .list [], .map [(.str "k\nl", .str "\x1b\t"), (.str "1", .str "~")]])]

/-! ## Lock files that do not load back -/

def shortHeader : Header := { hash := "h", version := "v" }

theorem isRemark_shortHeader : ∀ line ∈ shortHeader.lines.map String.toList, IsRemark line :=
  List.forall_mem_map.mpr (Header.isRemark_lines (by decide))

/-- A short key that is written wide: a tabulator, which has it written in double quotes, and
characters that are written as ten each there. -/
def wideChars : List Char := '\t' :: List.replicate 103 (Char.ofNat 0x1F600)

def longInt : Int := 10 ^ Text.maxDecimalDigits

/-! ## Headers that say nothing -/

/-- The lines of some characters, where a line feed and a carriage return end a line each. -/
def plainLines (cs : List Char) : List (List Char) := cs.splitOnP fun c => c == '\n' || c == '\r'

/-- Lines that are empty or comments. -/
def AreSilent (lines : List (List Char)) : Prop := ∀ line ∈ lines, line.head?.all (· == '#')

def staysInLine (s : String) : Bool := s.toList.all fun c => !(c == '\n' || c == '\r')

theorem plainLines_of_stays (h : staysInLine s) : plainLines s.toList = [s.toList] :=
  List.splitOnP_eq_singleton fun c hc => by simpa using List.all_eq_true.mp h c hc

theorem areSilent_of_stays (h : staysInLine s) (hmark : s.toList.head?.all (· == '#')) :
    AreSilent (plainLines s.toList) := by
  rw [plainLines_of_stays h]
  exact List.forall_mem_singleton.mpr hmark

theorem areSilent_lineText_iff (lines : List String) :
    AreSilent (plainLines (lineText (lines.map String.toList))) ↔
      ∀ line ∈ lines, AreSilent (plainLines line.toList) := by
  induction lines with
  | nil => simp [lineText, plainLines, AreSilent]
  | cons line lines ih =>
    rw [List.map_cons, Yaml.lineText_cons, plainLines, List.splitOnP_append_cons _ _ (by decide),
      AreSilent, List.forall_mem_append, List.forall_mem_cons]
    exact and_congr_right fun _ => ih

/-- What goes on in the line of a comment counts from its second line. -/
theorem areSilent_append_iff (hmark : mark.toList.head? = some '#') (hstays : staysInLine mark)
    (s : String) :
    AreSilent (plainLines (mark ++ s).toList) ↔ AreSilent (plainLines s.toList).tail := by
  have hlines : ∀ cs : List Char, (∀ c ∈ cs, !(c == '\n' || c == '\r')) →
      plainLines (cs ++ s.toList) = (plainLines s.toList).modifyHead (cs ++ ·) := by
    intro cs hcs
    induction cs with
    | nil => exact (congrFun List.modifyHead_id _).symm
    | cons c cs ih =>
      obtain ⟨hc, hrest⟩ := List.forall_mem_cons.mp hcs
      have hstep := ih hrest
      rw [plainLines] at hstep ⊢
      rw [List.cons_append, List.splitOnP_cons_eq_if_modifyHead, if_neg (by simpa using hc), hstep,
        List.modifyHead_modifyHead]
      rfl
  rw [String.toList_append, hlines _ (List.all_eq_true.mp hstays)]
  cases hpieces : plainLines s.toList with
  | nil => exact absurd hpieces (List.splitOnP_ne_nil _ _)
  | cons piece pieces => simp [AreSilent, hmark]

theorem areSilent_append (hmark : mark.toList.head? = some '#') (hstays : staysInLine mark)
    (hs : staysInLine s) : AreSilent (plainLines (mark ++ s).toList) := by
  rw [areSilent_append_iff hmark hstays, plainLines_of_stays hs]
  nofun

theorem areSilent_commentLine (hline : line ∈ Text.wideLines (Text.trim description)) :
    AreSilent (plainLines (commentLine line).toList) := by
  obtain ⟨cs, hcs, rfl⟩ := List.mem_map.mp hline
  have hstart : (commentLine (String.ofList cs)).toList <+: "# ".toList ++ cs := by
    simp only [commentLine, Text.trimEnd, Text.trimEndWhere, String.toList_ofList,
      String.toList_append]
    exact Text.dropEndWhile_isPrefix _ _
  have hstays : staysInLine (commentLine (String.ofList cs)) := by
    refine List.all_eq_true.mpr fun c hc => ?_
    rcases List.mem_append.mp (hstart.subset hc) with hc | hc
    · exact (by decide : ∀ c ∈ "# ".toList, !(c == '\n' || c == '\r')) c hc
    · have hbreak := (Text.mem_of_mem_wideLinesList cs hcs c hc).2
      rw [Bool.not_eq_true', ← Bool.not_eq_true, Bool.or_eq_true, beq_iff_eq, beq_iff_eq]
      rintro (rfl | rfl) <;> cases hbreak
  refine areSilent_of_stays hstays ?_
  cases hshown : (commentLine (String.ofList cs)).toList with
  | nil => rfl
  | cons c shown =>
    rw [hshown] at hstart
    exact beq_iff_eq.mpr (List.cons_prefix_cons.mp hstart).1

/-- **A header is silent just when the version of its workflow is, from the second line on.**  The
description may have any lines, whatever ends them. -/
theorem header_silent_iff {h : Header} (hsource : staysInLine h.source = true)
    (hversion : staysInLine h.version = true) (hhash : staysInLine h.hash = true) :
    AreSilent (plainLines h.text.toList) ↔
      AreSilent (plainLines h.workflowVersion.toList).tail := by
  have hmark : AreSilent (plainLines "#".toList) := areSilent_of_stays (by decide) (by decide)
  rw [Header.toList_text, areSilent_lineText_iff, ← areSilent_append_iff
    (by decide : "# Workflow version: ".toList.head? = some '#') (by decide)]
  simp only [Header.lines, List.forall_mem_append, List.forall_mem_cons]
  constructor
  · rintro ⟨⟨-, hwritten⟩, -⟩
    split at hwritten
    · next hempty =>
      rw [String.isEmpty_iff.mp hempty]
      exact areSilent_append (by decide) (by decide) (by decide)
    · exact hwritten _ (List.mem_singleton_self _)
  · intro hwritten
    refine ⟨⟨⟨⟨⟨?_, hmark, ?_, ?_, nofun⟩, ?_⟩, ?_⟩, ?_⟩, hmark, ?_,
      areSilent_of_stays (by decide) (by decide), nofun⟩
    · rw [String.append_assoc]
      refine areSilent_append (by decide) (by decide) ?_
      rw [staysInLine, String.toList_append, List.all_append, Bool.and_eq_true]
      exact ⟨hversion, by decide⟩
    · exact areSilent_of_stays (by decide) (by decide)
    · exact areSilent_of_stays (by decide) (by decide)
    · split
      · nofun
      · exact List.forall_mem_cons.mpr
          ⟨hmark, List.forall_mem_map.mpr fun _ => areSilent_commentLine⟩
    · split
      · nofun
      · exact List.forall_mem_cons.mpr ⟨hmark, List.forall_mem_singleton.mpr
          (areSilent_append (by decide) (by decide) hsource)⟩
    · split
      · nofun
      · exact List.forall_mem_singleton.mpr hwritten
    · exact areSilent_append (by decide) (by decide) hhash

theorem header_silent_iff_sample :
    AreSilent (plainLines longHeader.text.toList) ∧
      ¬AreSilent (plainLines { longHeader with workflowVersion := "1\nid: 2" }.text.toList) :=
  ⟨(header_silent_iff (by decide) (by decide) (by decide)).mpr (by nofun),
    (header_silent_iff (by decide) (by decide) (by decide)).not.mpr (by unfold AreSilent; decide)⟩

/-- A version that is accepted and goes on in a second line adds to the document. -/
theorem version_adds_to_document :
    Setting.text (.str "1\nid: 2") "version" "" = .ok "1\nid: 2" ∧
    ((Yaml.load Yaml.Schema.workflow (render { shortHeader with workflowVersion := "1\nid: 2" }
      (.map [(.str "name", .str "X")]))).toOption.map Yaml.dump) = some "id: 2\nname: X\n" :=
  ⟨rfl, by decide +kernel⟩

end FlowLock.LockFile
