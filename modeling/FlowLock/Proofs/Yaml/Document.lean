import FlowLock.Proofs.Yaml.Layout

/-!
# The tokens of a document

A document is a mapping between the lines that are passed over before it and the mark that
may stand after it.  Comments may hold any character that a document may hold and that ends
no line.
-/

namespace FlowLock.Yaml

open List Nat

/-! ## Lines before a document -/

/-- A line that is passed over before a document: empty, or a comment. -/
structure IsRemark (line : List Char) : Prop where
  acceptable : ∀ c ∈ line, isAcceptable c = true
  unbroken : ∀ c ∈ line, isBreak c = false
  comment : ∀ c ∈ line.head?, c = '#'

def lineText (lines : List (List Char)) : List Char := lines.flatMap (· ++ ['\n'])

theorem lineText_cons (line : List Char) (lines : List (List Char)) :
    lineText (line :: lines) = line ++ '\n' :: lineText lines := by
  rw [lineText, flatMap_cons, append_assoc, singleton_append]
  rfl

theorem length_le_lineText (lines : List (List Char)) : lines.length ≤ (lineText lines).length := by
  induction lines with
  | nil => exact le_refl 0
  | cons line lines ih =>
    rw [lineText_cons, length_append, length_cons, length_cons]
    omega

theorem isBreakOrEnd_of_acceptable {c : Char} (h : isAcceptable c)
    (hbreak : isBreak c = false) : isBreakOrEnd c = false := by
  have hend : c ≠ endChar := by
    rintro rfl
    revert h
    decide
  rw [isBreakOrEnd, hbreak, Bool.or_false, beq_eq_false_iff_ne.mpr hend]

namespace Cursor

variable {c : Cursor} {xs ys : List Char}

theorem rest_next (c : Cursor) : c.next.rest = c.rest.tail := by
  unfold next
  split
  case h_1 h => rw [h]; rfl
  case h_2 ch rest h =>
    rw [h]
    split
    · rfl
    · split <;> rfl

theorem rest_advance (c : Cursor) (n : Nat) : (c.advance n).rest = c.rest.drop n := by
  induction n generalizing c with
  | zero => rfl
  | succ n ih => rw [advance, ih, rest_next, drop_tail, add_comm]

theorem rest_skipComment (h : c.rest = xs ++ '\n' :: ys) (hxs : IsRemark xs) :
    c.skipComment.rest = '\n' :: ys := by
  cases xs with
  | nil =>
    rw [skipComment, peek_cons h]
    exact h
  | cons x xs =>
    obtain rfl : x = '#' := hxs.comment x rfl
    have hrun : (c.run fun ch => !isBreakOrEnd ch) = '#' :: xs := by
      refine run_eq h (fun y hy => ?_) ?_
      · rw [isBreakOrEnd_of_acceptable (hxs.acceptable y hy) (hxs.unbroken y hy)]
        rfl
      · rintro y ⟨⟩
        decide
    rw [skipComment, peek_cons h, if_pos (by decide), skipWhile, hrun, rest_advance, h, drop_left]

theorem skipSpaces_of_isRemark (h : c.rest = xs ++ '\n' :: ys) (hxs : IsRemark xs) :
    c.skipSpaces = c := by
  refine @skipSpaces_eq c (xs ++ '\n' :: ys) 0 h ?_
  cases xs with
  | nil =>
    rintro y ⟨⟩
    decide
  | cons x xs =>
    obtain rfl : x = '#' := hxs.comment x rfl
    rintro y ⟨⟩
    decide

end Cursor

namespace Lexer

open Relation (ReflTransGen)

variable {l r : Lexer} {n : Nat} {line cs tok : List Char} {lines : List (List Char)}
  {kinds ks : List TokenKind} {start : TokenKind}

theorem skipBlank_line (hflow : l.flowLevel = 0) (h : l.cursor.rest = line ++ '\n' :: tok)
    (hline : IsRemark line) :
    ∃ c : Cursor, c.rest = tok ∧ c.column = 0 ∧
      skipBlank (n + 1) l = skipBlank n { l with cursor := c, keyAllowed := true } := by
  have hrest := Cursor.rest_skipComment h hline
  refine ⟨l.cursor.skipComment.newLine, ?_, rfl, ?_⟩
  · rw [Cursor.rest_newLine, hrest]
    rfl
  · rw [skipBlank, Cursor.skipSpaces_of_isRemark h hline, Cursor.peek_cons hrest,
      Cursor.lineBreak_of_lineFeed hrest, inFlow_eq hflow, Bool.not_false, Bool.or_true]
    rfl

theorem skipBlank_lines (hflow : l.flowLevel = 0) (hallowed : l.keyAllowed)
    (hcolumn : l.cursor.column = 0) (h : l.cursor.rest = lineText lines ++ tok)
    (hlines : ∀ line ∈ lines, IsRemark line) (htok : StartsToken tok) :
    ∃ c : Cursor, c.rest = tok ∧ c.column = 0 ∧
      skipBlank (n + lines.length + 1) l = { l with cursor := c } := by
  induction lines generalizing l with
  | nil =>
    refine ⟨l.cursor, h, hcolumn, ?_⟩
    exact @skipBlank_spaces l 0 _ tok h htok
  | cons line lines ih =>
    rw [forall_mem_cons] at hlines
    rw [lineText_cons, append_assoc, cons_append] at h
    obtain ⟨c, hrest, hcolumn', hskip⟩ :=
      @skipBlank_line l (n + lines.length + 1) line _ hflow h hlines.1
    obtain ⟨c', hrest', hcolumn'', hskip'⟩ :=
      @ih { l with cursor := c, keyAllowed := true } hflow rfl hcolumn' hrest hlines.2
    refine ⟨c', hrest', hcolumn'', ?_⟩
    rw [length_cons, ← add_assoc, hskip, hskip', ← hallowed]

theorem reaches_start (hlines : ∀ line ∈ lines, IsRemark line) (htok : StartsToken tok) :
    ∃ r, Reaches (Lexer.start (lineText lines ++ tok)) r ∧
      Stands r [.streamStart] (-1) [] 0 tok := by
  have hmark : (start (lineText lines ++ tok)).cursor.peek ≠ byteOrderMark := by
    cases lines with
    | nil => exact (Cursor.peek_of_startsToken rfl htok).2.2.2
    | cons line lines =>
      rw [forall_mem_cons] at hlines
      cases line with
      | nil => exact (by decide : '\n' ≠ byteOrderMark)
      | cons x line =>
        obtain rfl : x = '#' := hlines.1.comment x rfl
        exact (by decide : '#' ≠ byteOrderMark)
  obtain ⟨c, hrest, hcolumn, hskip⟩ := @skipBlank_lines (start (lineText lines ++ tok))
    ((lineText lines ++ tok).length - lines.length) tok lines rfl rfl rfl rfl hlines htok
  refine ⟨{ start (lineText lines ++ tok) with cursor := c },
    reaches_of_ready .refl ?_ ?_, ⟨⟨rfl, rfl, rfl, rfl, rfl⟩, rfl, rfl, hcolumn, hrest⟩⟩
  · have hlength : (lineText lines ++ tok).length - lines.length + lines.length =
        (lineText lines ++ tok).length := by
      have := length_le_lineText lines
      rw [length_append]
      omega
    rw [hlength] at hskip
    rw [toNext_eq hmark]
    exact (congrArg dropStale hskip).trans (dropStale_of_nil rfl)
  · change c.rest.length ≤ (lineText lines ++ tok).length
    rw [hrest, length_append]
    omega

/-! ## The value at the root -/

/-- A text that is read as the tokens of the value at the root. -/
structure ScansRoot (cs : List Char) (ks : List TokenKind) : Prop where
  starts : StartsToken cs ∧ cs ≠ []
  scans : ∃ indent outer opened ends, RootBlock indent outer ends ∧ ks = opened ++ ends ∧
    ∀ {l r kinds tok}, Reaches l r → Stands r kinds (-1) [] 0 (cs ++ tok) → StartsToken tok →
      ∃ r', Reaches l r' ∧ Stands r' (kinds ++ opened) indent outer 0 tok

theorem scansRoot_block (h : ScansBlock 0 start cs ks) :
    ScansRoot cs (start :: (ks ++ [.blockEnd])) where
  starts := h.starts
  scans := by
    refine ⟨0, [-1], start :: ks, [.blockEnd], .mapping, rfl, ?_⟩
    intro l r kinds tok hreach hr htok
    obtain ⟨r', hreach', hr'⟩ :=
      @ScansBlock.scans _ _ _ _ h _ _ _ _ _ _ _ 0 tok hreach hr (.first (by decide))
        (le_refl 0) htok
    refine ⟨r', hreach', ?_⟩
    rwa [append_assoc] at hr'

theorem scansRoot_empty : ScansRoot "\x7b\x7d\n".toList [.flowMappingStart, .flowMappingEnd] where
  starts := by
    refine ⟨?_, by decide⟩
    rintro y ⟨⟩
    decide
  scans := by
    refine ⟨-1, [], [.flowMappingStart, .flowMappingEnd], [], .none, rfl, ?_⟩
    intro l r kinds tok hreach hr htok
    have hwithin : Within r kinds (-1) [] ('\x7b' :: '\x7d' :: '\n' :: (replicate 0 ' ' ++ tok)) :=
      ⟨hr.toHolds, hr.pending, by rw [hr.indent, column, hr.column]; decide, hr.rest⟩
    obtain ⟨p, hsteps, hp⟩ := Within.empty .map hreach hwithin
    exact hp.reaches hsteps htok

end Lexer

inductive Closing : List Char → List TokenKind → Prop
  | none : Closing [] []
  | mark : Closing "...\n".toList [.documentEnd]

variable {d : Nat} {es : Entries} {cs tail : List Char} {ks ends : List TokenKind}
  {lines : List (List Char)}

theorem exists_closing {s : Sheet} (h : s.At 0 cs) : ∃ tail ends, Closing tail ends ∧
      (if s.openEnded then (s.indicator "..." true false false).toIndent 0 else s).text.toList =
        cs ++ tail := by
  split
  · refine ⟨_, _, .mark, ?_⟩
    have hended := Sheet.ended_of_line (s := s.indicator "..." true false false)
      (Bool.and_false _) 0 0 (le_refl 0)
    rw [hended.text, Sheet.indicator_apart, h.spaced, if_pos rfl, h.text, replicate_zero,
      append_nil, append_assoc]
    rfl
  · exact ⟨_, _, .none, by rw [h.text, append_nil]⟩

theorem blank_at : (Sheet.blank.toIndent 0).At 0 [] := ⟨rfl, rfl, rfl, rfl⟩

/-- A mapping that is laid out as tokens at the root of a document. -/
def LaysRoot (es : Entries) (ks : List TokenKind) : Prop :=
  ∃ cs, Lexer.ScansRoot cs ks ∧ (∀ c ∈ cs, isAcceptable c = true) ∧
    Sheet.At ((writeValue .workflow false none (.map es) Sheet.blank).toIndent 0) 0 cs

theorem LaysBlock.root {e : Value × Value}
    (h : LaysBlock (writeEntries .workflow 0 (e :: es)) 0 .blockMappingStart ks) :
    LaysRoot (e :: es) (.blockMappingStart :: (ks ++ [.blockEnd])) := by
  obtain ⟨cs, hcs, hscans, hwrite⟩ := h
  have hat := hwrite blank_at 0 (le_refl 0)
  rw [replicate_zero, append_nil] at hat
  exact ⟨cs, Lexer.scansRoot_block hscans, hcs, hat⟩

/-- What a document keeps is laid out at its root. -/
theorem exists_laysRoot (h : isStorable d (.map es)) :
    ∃ ks, Tokens d (.map es) ks ∧ LaysRoot es ks := by
  cases d with
  | zero => cases h
  | succ d =>
    cases es with
    | nil => exact ⟨_, .emptyMap, _, Lexer.scansRoot_empty, by decide, rfl, rfl, rfl, rfl⟩
    | cons e es =>
      obtain ⟨rows, hrows, hkeys, htag, htokens, hblock⟩ :=
        exists_laysEntries exists_lays (cons_ne_nil e es) h .workflow 0
      exact ⟨_, hrows ▸ .map hkeys htag htokens, hblock.root⟩

/-! ## Documents -/

theorem firstForbidden?_eq_none {k : Nat} (h : ∀ c ∈ cs, isAcceptable c) :
    firstForbidden? k cs = none := by
  induction cs generalizing k with
  | nil => rfl
  | cons c cs ih =>
    rw [forall_mem_cons] at h
    rw [firstForbidden?, if_pos h.1, ih h.2]

theorem isAcceptable_lineText (h : ∀ line ∈ lines, IsRemark line) :
    ∀ c ∈ lineText lines, isAcceptable c := by
  intro c hc
  obtain ⟨line, hline, hc⟩ := mem_flatMap.mp hc
  obtain hc | hc := mem_append.mp hc
  · exact (h line hline).acceptable c hc
  · rw [mem_singleton.mp hc]
    decide

theorem Lexer.exists_end {l r : Lexer} {kinds : List TokenKind} {indent : Int} {outer : List Int}
    {blockEnds : List TokenKind} (hreach : Reaches l r) (hclosing : Closing tail ends)
    (h : Stands r kinds indent outer 0 tail) (hroot : RootBlock indent outer blockEnds) :
    ∃ r' l', Reaches l r' ∧ r'.readToken = .ok l' ∧ l'.isDone ∧
      l'.kindsRead = kinds ++ blockEnds ++ ends ++ [.streamEnd] := by
  cases hclosing with
  | none =>
    obtain ⟨l', hread, hdone, hkinds⟩ := h.streamEnd hroot
    rw [append_nil]
    exact ⟨r, l', hreach, hread, hdone, hkinds⟩
  | mark =>
    obtain ⟨r', hreach', hr'⟩ := hreach.documentEnd h hroot
    obtain ⟨l', hread, hdone, hkinds⟩ := hr'.streamEnd .none
    rw [append_nil] at hkinds
    exact ⟨r', l', hreach', hread, hdone, hkinds⟩

theorem LaysRoot.tokenize {text : String} (h : LaysRoot es ks)
    (hlines : ∀ line ∈ lines, IsRemark line)
    (htext : text.toList = lineText lines ++ (dump (.map es)).toList) :
    ∃ tokens tail ends, tokenize text.toList = (tokens, none) ∧ Closing tail ends ∧
      tokens.map (·.kind) = .streamStart :: (ks ++ ends ++ [.streamEnd]) := by
  obtain ⟨cs, hscans, hcs, hat⟩ := h
  obtain ⟨tail, ends, hclosing, hdump⟩ := exists_closing hat
  obtain ⟨hstarts, indent, outer, opened, blockEnds, hroot, rfl, hscan⟩ := hscans
  have htail : StartsToken tail := by
    cases hclosing
    · simp [StartsToken]
    · rintro y ⟨⟩
      decide
  obtain ⟨r, hreach, hr⟩ := Lexer.reaches_start hlines (@Lexer.startsToken_append cs tail hstarts)
  obtain ⟨r', hreach', hr'⟩ := hscan hreach hr htail
  obtain ⟨r'', l', hreach'', hread, hdone, hkinds⟩ := Lexer.exists_end hreach' hclosing hr' hroot
  refine ⟨l'.tokens.reverse, tail, ends, ?_, hclosing, ?_⟩
  · have hall : ∀ c ∈ lineText lines ++ (cs ++ tail), isAcceptable c := by
      rw [forall_mem_append, forall_mem_append]
      refine ⟨isAcceptable_lineText hlines, hcs, ?_⟩
      cases hclosing <;> decide
    have hbody : (dump (.map es)).toList = cs ++ tail := hdump
    rw [htext, hbody, tokenize, firstForbidden?_eq_none hall]
    exact Lexer.run_of_reaches hreach'' hread hdone (Nat.lt_add_of_pos_right (by decide))
  · refine hkinds.trans ?_
    simp only [append_assoc, cons_append, nil_append]

end FlowLock.Yaml
