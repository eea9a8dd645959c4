import FlowLock.Proofs.Yaml.Plain
import FlowLock.Yaml.Writer.Sheet
import Mathlib.Tactic.Tauto

/-!
# Literal blocks read back

A literal block holds the lines of a text, each indented when it is not empty.  Its
reader takes the indentation away and keeps every other character; how many line feeds
the text ends with is said by a hint in front of the lines.
-/

namespace FlowLock.Yaml.Scalar

open Analysis Cursor List

variable {c : Cursor} {xs ys zs : List Char} {n m k w : Nat} {word hints : List Char} {j : Nat}
  {chomping : Chomping} {increment : Option Nat}

/-! ## The lines that are written -/

/-- The lines of a text, the last one ended.  `start` says that a line starts here. -/
def literalText (width : Nat) : Bool → List Char → List Char
  | start, [] => if start then [] else ['\n']
  | start, x :: xs =>
    if x = '\n' then '\n' :: literalText width true xs
    else (if start then replicate width ' ' else []) ++ x :: literalText width false xs

theorem literalText_word (hword : ∀ x ∈ word, x ≠ '\n') (xs : List Char) :
    literalText w false (word ++ xs) = word ++ literalText w false xs := by
  induction word with
  | nil => rfl
  | cons x word ih =>
    rw [forall_mem_cons] at hword
    rw [cons_append, literalText, if_neg hword.1, ih hword.2]
    rfl

theorem literalText_breaks (start : Bool) (k : Nat) (xs : List Char) :
    literalText w start (replicate (k + 1) '\n' ++ xs) =
      replicate (k + 1) '\n' ++ literalText w true xs := by
  induction k generalizing start with
  | zero => rw [replicate_one, singleton_append, literalText, if_pos rfl]; rfl
  | succ k ih =>
    rw [replicate_succ, cons_append, literalText, if_pos rfl, ih true, cons_append]

theorem literalText_leading (j : Nat) (xs : List Char) :
    literalText w true (replicate j '\n' ++ xs) =
      replicate j '\n' ++ literalText w true xs := by
  cases j with
  | zero => rfl
  | succ j => exact literalText_breaks true j xs

theorem literalText_start {x : Char} (hx : x ≠ '\n') (xs : List Char) :
    literalText w true (x :: xs) = replicate w ' ' ++ x :: literalText w false xs := by
  rw [literalText, if_neg hx]
  rfl

theorem length_le_literalText (start : Bool) (xs : List Char) :
    xs.length ≤ (literalText w start xs).length := by
  induction xs generalizing start with
  | nil => exact Nat.zero_le _
  | cons x xs ih =>
    rw [literalText]
    split
    · exact Nat.succ_le_succ (ih true)
    · rw [length_append, length_cons, length_cons]
      exact Nat.le_add_left_of_le (Nat.succ_le_succ (ih false))

theorem literalText_end (k : Nat) :
    literalText w false (replicate k '\n') = '\n' :: replicate (k - 1) '\n' := by
  cases k with
  | zero => rfl
  | succ k =>
    have hbreaks := @literalText_breaks w false k []
    rw [append_nil] at hbreaks
    rw [hbreaks, literalText, if_pos rfl, append_nil, replicate_succ]
    rfl

/-! ## Indentation and empty lines -/

theorem skipIndent_eq (hcolumn : c.column = 0) (h : c.rest = replicate k ' ' ++ zs)
    (hk : k ≤ w) (hzs : k < w → zs.head? ≠ some ' ') : skipIndent w c = c.shift k := by
  have hrun : c.run (· == ' ') = replicate k ' ' ++ zs.takeWhile (· == ' ') := by
    rw [run, h, takeWhile_append_of_pos]
    intro x hx
    rw [eq_of_mem_replicate hx]
    rfl
  have htake : (c.run (· == ' ')).take w = replicate k ' ' := by
    rcases Nat.lt_or_eq_of_le hk with hlt | rfl
    · have hnone : zs.takeWhile (· == ' ') = [] := by
        cases zs with
        | nil => rfl
        | cons z zs =>
          have hz : ¬ (z == ' ') := fun hz =>
            hzs hlt (congrArg some (beq_iff_eq.mp hz))
          rw [takeWhile_cons, if_neg hz]
      rw [hrun, hnone, append_nil, take_of_length_le]
      rwa [length_replicate]
    · rw [hrun, take_left' length_replicate]
  rw [skipIndent, hcolumn, Nat.sub_zero, htake, advance_of_inline h isInline_of_mem_spaces,
    length_replicate]

theorem blockBreaks_eq (hcolumn : c.column = 0)
    (h : c.rest = replicate j '\n' ++ (replicate k ' ' ++ zs)) (hk : k ≤ w)
    (hzs : k < w → zs.head? ≠ some ' ') (hbreak : ∀ z ∈ zs.head?, isBreak z = false) (hn : j < n)
    (breaks : List Char) (finish : Mark) :
    ∃ finish' c', blockBreaks w n c breaks finish =
        (breaks ++ replicate j '\n', finish', c') ∧ c'.rest = zs ∧ c'.column = k := by
  induction j generalizing c n breaks finish with
  | zero =>
    rcases n with _ | n
    · cases hn
    have hskip := skipIndent_eq hcolumn h hk hzs
    have hrest := rest_shift_spaces h
    have hpeek : isBreak (c.shift k).peek = false :=
      @peek_of_head (c.shift k) (fun x => isBreak x = false) (by decide) (by rwa [hrest])
    refine ⟨finish, c.shift k, ?_, hrest, by rw [column_shift, hcolumn, Nat.zero_add]⟩
    rw [blockBreaks, hskip, hpeek, replicate_zero, append_nil]
    rfl
  | succ j ih =>
    rcases n with _ | n
    · cases hn
    rw [replicate_succ, cons_append] at h
    have hskip : skipIndent w c = c :=
      skipIndent_eq hcolumn (k := 0) h (Nat.zero_le w) (fun _ => by rintro ⟨⟩)
    have hrest : c.newLine.rest = replicate j '\n' ++ (replicate k ' ' ++ zs) := by
      rw [rest_newLine, h]
      rfl
    obtain ⟨finish', c', hread, hc'⟩ := ih (column_newLine c) hrest
      (Nat.lt_of_succ_lt_succ hn) (breaks ++ ['\n']) c.newLine.mark
    refine ⟨finish', c', ?_, hc'⟩
    rw [blockBreaks, hskip, peek_cons h, lineBreak_of_lineFeed h, if_pos (by decide)]
    rw [append_assoc, singleton_append, ← replicate_succ] at hread
    exact hread

/-! ## Lines -/

theorem isBreakOrEnd_of_isPlainChar {x : Char} (hx : IsPlainChar x) : isBreakOrEnd x = false := by
  by_cases hspace : x = ' '
  · subst hspace
    decide
  · have hblank := hx.2 hspace
    simp only [isBlankOrEnd, isSpaceOrEnd, Bool.or_eq_false_iff] at hblank
    exact hblank.2.2

theorem blockLines_succ {done : BlockEnd} {x : Char} (hcolumn : done.cursor.column = w)
    (hword : ∀ y ∈ x :: word, IsPlainChar y) (h : done.cursor.rest =
      x :: word ++ '\n' :: (replicate j '\n' ++ (replicate k ' ' ++ zs))) (hk : k ≤ w)
    (hzs : k < w → zs.head? ≠ some ' ') (hbreak : ∀ z ∈ zs.head?, isBreak z = false) :
    ∃ finish c', c'.rest = zs ∧ c'.column = k ∧ blockLines false w (n + 1) done =
      if c'.column == w && c'.peek != endChar then
        blockLines false w n
          { text := done.text ++ done.breaks ++ x :: word ++ ['\n'], lastBreak := ['\n']
            breaks := replicate j '\n', finish, cursor := c' }
      else
        { text := done.text ++ done.breaks ++ x :: word, lastBreak := ['\n']
          breaks := replicate j '\n', finish, cursor := c' } := by
  have hpeek : (done.cursor.peek != endChar) := by
    rw [peek_cons (h.trans cons_append), bne_iff_ne]
    rintro rfl
    exact absurd (isBreakOrEnd_of_isPlainChar (hword _ mem_cons_self)) (by decide)
  have hrun : done.cursor.run (fun ch => !isBreakOrEnd ch) = x :: word := by
    refine run_eq h ?_ ?_
    · intro y hy
      rw [isBreakOrEnd_of_isPlainChar (hword y hy)]
      rfl
    · rintro y ⟨⟩
      decide
  have hline := rest_shift_length h
  have hrest : (done.cursor.shift (x :: word).length).newLine.rest =
      replicate j '\n' ++ (replicate k ' ' ++ zs) := by
    rw [rest_newLine, hline]
    rfl
  obtain ⟨finish, c', hread, hc', hcolumn'⟩ := blockBreaks_eq (column_newLine _) hrest hk hzs
    hbreak (n := (done.cursor.shift (x :: word).length).newLine.rest.length + 1)
    (by rw [hrest, length_append, length_replicate]; omega) []
    (done.cursor.shift (x :: word).length).newLine.mark
  refine ⟨finish, c', hc', hcolumn', ?_⟩
  rw [blockLines, hcolumn, hpeek, beq_self_eq_true, Bool.true_and, if_pos rfl, hrun]
  dsimp only
  rw [advance_of_inline h (fun y hy => (hword y hy).1), lineBreak_of_lineFeed hline]
  dsimp only
  rw [hread]
  rfl

/-- The lines of a text are read one after the other, and the line feeds at its end are
left for the hint to decide. -/
theorem blockLines_eq {done : BlockEnd} {x : Char} (hx : x ≠ '\n')
    (hlast : (x :: xs).getLast? ≠ some '\n') (hxs : ∀ y ∈ x :: xs, y ≠ '\n' → IsPlainChar y)
    (hcolumn : done.cursor.column = w)
    (h : done.cursor.rest = x :: literalText w false (xs ++ replicate k '\n') ++
      (replicate m ' ' ++ ys))
    (hm : m < w) (hys : StartsToken ys) (hn : xs.length < n) :
    ∃ finish c', c'.rest = ys ∧ c'.column = m ∧ blockLines false w n done =
      { text := done.text ++ done.breaks ++ x :: xs, lastBreak := ['\n']
        breaks := replicate (k - 1) '\n', finish, cursor := c' } := by
  induction hlength : xs.length using Nat.strongRecOn generalizing x xs done n with
  | _ length ih =>
  rcases n with _ | n
  · cases hn
  obtain ⟨word, later, rfl, hword, hlater⟩ := exists_word_gap hx hlast
  have hplain : ∀ y ∈ x :: word, IsPlainChar y := fun y hy =>
    hxs y (mem_append_left later hy) (hword y hy)
  have hline : ∀ y ∈ word, y ≠ '\n' := fun y hy => hword y (mem_cons_of_mem x hy)
  rw [append_assoc, literalText_word hline, ← cons_append] at h
  obtain rfl | ⟨j, y, tail, rfl, hy, htail⟩ := hlater
  · -- The last line.
    rw [nil_append, literalText_end, append_assoc, cons_append] at h
    have hspace : m < w → ys.head? ≠ some ' ' := fun _ hhead => (hys ' ' hhead).1 rfl
    obtain ⟨finish, c', hc', hcolumn', hread⟩ := blockLines_succ (n := n) hcolumn hplain h
      (Nat.le_of_lt hm) hspace (fun z hz => (hys z hz).2.2.1)
    have hcond : (c'.column == w && c'.peek != endChar) = false := by
      rw [hcolumn', beq_eq_false_iff_ne.mpr (Nat.ne_of_lt hm), Bool.false_and]
    refine ⟨finish, c', hc', hcolumn', ?_⟩
    rw [hread, hcond, append_nil]
    rfl
  · have htext : literalText w false (replicate (j + 1) '\n' ++ y :: tail ++
        replicate k '\n') = '\n' :: (replicate j '\n' ++ (replicate w ' ' ++
          y :: literalText w false (tail ++ replicate k '\n'))) := by
      rw [append_assoc, literalText_breaks, cons_append, literalText_start hy,
        replicate_succ, cons_append]
    rw [htext] at h
    simp only [append_assoc, cons_append] at h
    have hplainLater : ∀ z ∈ y :: tail, z ≠ '\n' → IsPlainChar z := fun z hz =>
      hxs z (mem_cons_of_mem x (mem_append_right _ (mem_append_right _ hz)))
    have hyPlain := hplainLater y mem_cons_self hy
    rw [← cons_append, ← cons_append] at h
    obtain ⟨finish, c', hc', hcolumn', hread⟩ := blockLines_succ (n := n) hcolumn hplain h
      (Nat.le_refl w) (fun hlt => absurd hlt (Nat.lt_irrefl w)) (by rintro z ⟨⟩; exact hyPlain.1.1)
    have hcond : (c'.column == w && c'.peek != endChar) := by
      rw [hcolumn', beq_self_eq_true, Bool.true_and, peek_cons hc', bne_iff_ne]
      rintro rfl
      exact absurd (isBreakOrEnd_of_isPlainChar hyPlain) (by decide)
    simp only [length_append, length_replicate, length_cons] at hn hlength
    obtain ⟨finish', c'', hc'', hcolumn'', hread'⟩ := @ih tail.length (by omega) tail n
      { text := done.text ++ done.breaks ++ x :: word ++ ['\n'], lastBreak := ['\n']
        breaks := replicate j '\n', finish, cursor := c' } y hy htail hplainLater hcolumn' hc'
      (by omega) rfl
    refine ⟨finish', c'', hc'', hcolumn'', ?_⟩
    rw [hread, hcond, if_pos rfl, hread', replicate_succ]
    simp only [append_assoc, cons_append, nil_append]

/-! ## Hints -/

/-- The hints that are written in front of a literal block, with what they mean. -/
def hintTable : List (List Char × Chomping × Option Nat) :=
  [([], .clip, none), (['-'], .strip, none), (['+'], .keep, none),
   (['2'], .clip, some 2), (['2', '-'], .strip, some 2), (['2', '+'], .keep, some 2)]

theorem blockHeader_eq (hhints : (hints, chomping, increment) ∈ hintTable)
    (h : c.rest = hints ++ '\n' :: zs) :
    blockHeader c = .ok (chomping, increment, c.shift hints.length) := by
  obtain ⟨rest, index, line, column⟩ := c
  obtain rfl : rest = hints ++ '\n' :: zs := h
  simp only [hintTable, mem_cons, Prod.mk.injEq, not_mem_nil, or_false] at hhints
  obtain ⟨rfl, rfl, rfl⟩ | ⟨rfl, rfl, rfl⟩ | ⟨rfl, rfl, rfl⟩ | ⟨rfl, rfl, rfl⟩ | ⟨rfl, rfl, rfl⟩ |
    ⟨rfl, rfl, rfl⟩ := hhints <;> rfl

theorem ignoredLine_eq (h : c.rest = '\n' :: zs) : ignoredLine c = .ok c.newLine := by
  have hspaces : c.skipSpaces = c := by
    have hskip := @skipSpaces_eq c ('\n' :: zs) 0 h (by rintro y ⟨⟩; decide)
    rwa [shift_zero] at hskip
  have hcomment : c.skipComment = c := by rw [skipComment, peek_cons h]; rfl
  rw [ignoredLine, hspaces, hcomment, peek_cons h, lineBreak_of_lineFeed h]
  rfl

theorem blockIndentation_eq {x : Char} (h : c.rest = replicate k ' ' ++ x :: zs)
    (hspace : x ≠ ' ') (hbreak : isBreak x = false) {widest : Nat} (hwidest : c.column = widest)
    (hn : k < n) (breaks : List Char) (finish : Mark) :
    blockIndentation n c breaks widest finish = (breaks, widest + k, finish, c.shift k) := by
  induction k generalizing c n widest with
  | zero =>
    rcases n with _ | n
    · cases hn
    rw [blockIndentation, peek_cons h, if_neg (mt beq_iff_eq.mp hspace), hbreak]
    rfl
  | succ k ih =>
    rcases n with _ | n
    · cases hn
    rw [replicate_succ, cons_append] at h
    have hrest : (c.shift 1).rest = replicate k ' ' ++ x :: zs := by
      rw [rest_shift, h]
      rfl
    have hmax : max widest (c.shift 1).column = widest + 1 := by
      rw [column_shift, hwidest]
      omega
    have hcolumn : (c.shift 1).column = widest + 1 := by rw [column_shift, hwidest]
    rw [blockIndentation, peek_cons h, if_pos (beq_self_eq_true ' '),
      next_of_inline h isInline_space]
    dsimp only
    rw [hmax, ih hrest hcolumn (Nat.lt_of_succ_lt_succ hn), shift_shift, Nat.add_assoc,
      Nat.add_comm 1]

theorem isWrittenBreak_lineFeed : isWrittenBreak '\n' := rfl

theorem isWrittenBreak_of_isPlainChar {x : Char} (hx : IsPlainChar x) :
    isWrittenBreak x = false := by
  have hbreak := hx.1.1
  simp only [isBreak, Bool.or_eq_false_iff] at hbreak
  simp only [isWrittenBreak, Bool.or_eq_false_iff]
  exact ⟨⟨⟨hbreak.1.1.1.1, hbreak.1.1.2⟩, hbreak.1.2⟩, hbreak.2⟩

def startHint : List Char → String
  | [] => ""
  | c :: _ => if c == ' ' || isWrittenBreak c then "2" else ""

def endHint : List Char → String
  | [] => ""
  | [c] => if isWrittenBreak c then "+" else "-"
  | c :: d :: _ =>
    if !isWrittenBreak c then "-" else if isWrittenBreak d then "+" else ""

theorem literalHints_eq (cs : List Char) :
    (Sheet.literalHints cs).toList = (startHint cs).toList ++ (endHint cs.reverse).toList := by
  rw [← String.toList_append]
  rfl

/-- What the hint for a number of final line feeds is, and what it means. -/
def finalHint : Nat → List Char × Chomping
  | 0 => (['-'], .strip)
  | 1 => ([], .clip)
  | _ => (['+'], .keep)

theorem endHint_eq {z : Char} (hz : isWrittenBreak z = false) (k : Nat) (zs : List Char) :
    (endHint (replicate k '\n' ++ z :: zs)).toList = (finalHint k).1 := by
  match k with
  | 0 =>
    cases zs <;> simp [endHint, hz, finalHint]
  | 1 => simp [endHint, hz, finalHint, isWrittenBreak_lineFeed]
  | k + 2 => simp [endHint, finalHint, replicate_succ, isWrittenBreak_lineFeed]

theorem literalHints_lines {x : Char} {body : List Char} (hx : x ≠ '\n')
    (hbody : ∀ y ∈ x :: body, y ≠ '\n' → IsPlainChar y) (hlast : (x :: body).getLast? ≠ some '\n') :
    (Sheet.literalHints (replicate j '\n' ++ x :: (body ++ replicate k '\n'))).toList =
      (if j = 0 ∧ x ≠ ' ' then [] else ['2']) ++ (finalHint k).1 := by
  obtain ⟨init, z, hz⟩ : ∃ init z, x :: body = init ++ [z] :=
    ⟨_, _, (dropLast_append_getLast (cons_ne_nil x body)).symm⟩
  have hzPlain : IsPlainChar z := by
    refine hbody z (hz ▸ mem_append_right _ mem_cons_self) ?_
    rintro rfl
    rw [hz, getLast?_concat] at hlast
    exact hlast rfl
  have hxBreak := isWrittenBreak_of_isPlainChar (hbody x mem_cons_self hx)
  have hreverse : (replicate j '\n' ++ x :: (body ++ replicate k '\n')).reverse =
      replicate k '\n' ++ z :: (init.reverse ++ replicate j '\n') := by
    rw [← cons_append, hz]
    simp
  rw [literalHints_eq, hreverse, endHint_eq (isWrittenBreak_of_isPlainChar hzPlain)]
  congr 1
  cases j with
  | zero =>
    by_cases hspace : x = ' ' <;> simp [startHint, hspace, hxBreak]
  | succ j => simp [startHint, replicate_succ, isWrittenBreak_lineFeed]

theorem literalHints_breaks (j : Nat) :
    (Sheet.literalHints (replicate (j + 1) '\n')).toList = ['2', '+'] := by
  rw [literalHints_eq, reverse_replicate]
  cases j with
  | zero => rfl
  | succ j => simp [startHint, endHint, replicate_succ, isWrittenBreak_lineFeed]

theorem mem_hintTable (p : Prop) [Decidable p] (k : Nat) :
    ((if p then [] else ['2']) ++ (finalHint k).1, (finalHint k).2,
      if p then none else some 2) ∈ hintTable := by
  match k with
  | 0 => split <;> simp [finalHint, hintTable]
  | 1 => split <;> simp [finalHint, hintTable]
  | k + 2 => split <;> simp [finalHint, hintTable]

/-! ## Blocks -/

/-- The text that the final line breaks of a block leave. -/
def BlockEnd.tail (done : BlockEnd) : Chomping → List Char
  | .strip => []
  | .clip => done.lastBreak
  | .keep => done.lastBreak ++ done.breaks

def BlockEnd.read (done : BlockEnd) (chomping : Chomping) : Read :=
  { text := done.text ++ done.tail chomping, finish := done.finish, broken := false
    cursor := done.cursor }

/-- A block after its hints: the empty lines that it starts with, then its lines. -/
theorem block_of_hints (hhints : (hints, chomping, increment) ∈ hintTable)
    (h : c.rest = '|' :: (hints ++ '\n' :: zs)) :
    ∃ c₁ : Cursor, c₁.rest = zs ∧ c₁.column = 0 ∧ ∀ breaks finish c₂,
      (increment = none → blockIndentation (c₁.rest.length + 1) c₁ [] 0 c₁.mark =
        (breaks, n + 2, finish, c₂)) →
      (increment = some 2 → blockBreaks (n + 2) (c₁.rest.length + 1) c₁ [] c₁.mark =
        (breaks, finish, c₂)) →
      block false n c = .ok ((blockLines false (n + 2) (c₂.rest.length + 1)
        { text := [], lastBreak := [], breaks, finish, cursor := c₂ }).read chomping) := by
  have hfirst : (c.shift 1).rest = hints ++ '\n' :: zs := by rw [rest_shift, h]; rfl
  have hsecond := rest_shift_length hfirst
  have hleast : (max ((n : Int) + 1) 1).toNat = n + 1 := by omega
  have hwidest : max (n + 1) (n + 2) = n + 2 := by omega
  have hincrement : increment = none ∨ increment = some 2 := by
    simp only [hintTable, mem_cons, Prod.mk.injEq, not_mem_nil, or_false] at hhints
    tauto
  refine ⟨((c.shift 1).shift hints.length).newLine, ?_, rfl, ?_⟩
  · rw [rest_newLine, hsecond]
    rfl
  · intro breaks finish c₂ hnone hsome
    rw [block, next_of_inline h (by decide), blockHeader_eq hhints hfirst]
    simp only [bind, Except.bind]
    rw [ignoredLine_eq hsecond]
    simp only [hleast]
    obtain rfl | rfl := hincrement
    · rw [hnone rfl]
      simp only [hwidest]
      rfl
    · have hwidth : n + 1 + 2 - 1 = n + 2 := rfl
      simp only [hwidth]
      rw [hsome rfl]
      rfl

theorem blockLines_of_column_ne {done : BlockEnd} (h : done.cursor.column ≠ w) :
    blockLines false w n done = done := by
  cases n with
  | zero => rfl
  | succ n => rw [blockLines, beq_eq_false_iff_ne.mpr h]; rfl

theorem tail_finalHint (text : List Char) (k : Nat) (finish : Mark) (cursor : Cursor) :
    BlockEnd.tail { text, lastBreak := ['\n'], breaks := replicate (k - 1) '\n', finish, cursor }
      (finalHint k).2 = replicate k '\n' := by
  match k with
  | 0 => rfl
  | 1 => rfl
  | k + 2 => rfl

/-- **Literal blocks read back.**  A text written as a literal block inside a collection
is what the block is read as, and the cursor stands at the next token. -/
theorem block_eq {cs : List Char} (hne : cs ≠ []) (hcs : ∀ x ∈ cs, x ≠ '\n' → IsPlainChar x)
    (h : c.rest = '|' :: ((Sheet.literalHints cs).toList ++
      '\n' :: (literalText (n + 2) true cs ++ (replicate m ' ' ++ ys))))
    (hm : m ≤ n) (hys : StartsToken ys) :
    ∃ finish c', c'.rest = ys ∧ c'.column = m ∧ block false n c =
      .ok { text := cs, finish, broken := false, cursor := c' } := by
  obtain ⟨j, later, rfl, hlater⟩ := exists_gap '\n' cs
  rw [literalText_leading, append_assoc] at h
  have hlt : m < n + 2 := by omega
  cases later with
  | nil =>
    -- Nothing but line feeds: there is no line, and they are all kept.
    rw [append_nil] at h hne ⊢
    obtain ⟨j, rfl⟩ : ∃ j', j = j' + 1 := by
      cases j with
      | zero => exact absurd rfl hne
      | succ j => exact ⟨j, rfl⟩
    rw [literalHints_breaks] at h
    obtain ⟨c₁, hrest, hcolumn, hblock⟩ := block_of_hints (n := n)
      (show (['2', '+'], Chomping.keep, some 2) ∈ hintTable by simp [hintTable]) h
    obtain ⟨finish, c', hread, hc', hcolumn'⟩ := blockBreaks_eq (w := n + 2) hcolumn hrest
      (Nat.le_of_lt hlt) (fun _ hhead => (hys ' ' hhead).1 rfl) (fun z hz => (hys z hz).2.2.1)
      (n := c₁.rest.length + 1) (by rw [hrest, length_append, length_replicate]; omega) []
      c₁.mark
    refine ⟨finish, c', hc', hcolumn', ?_⟩
    rw [hblock _ finish c' (by rintro ⟨⟩) (fun _ => hread),
      blockLines_of_column_ne (by rw [hcolumn']; exact Nat.ne_of_lt hlt)]
    rfl
  | cons x xs =>
    have hx : x ≠ '\n' := fun heq => hlater (congrArg some heq)
    obtain ⟨body, k, rfl, hlast⟩ := exists_end hx xs
    have hbody : ∀ y ∈ x :: body, y ≠ '\n' → IsPlainChar y := fun y hy =>
      hcs y (mem_append_right _ (mem_append_left _ hy))
    rw [literalHints_lines hx hbody hlast, literalText_start hx,
      append_assoc (replicate (n + 2) ' ')] at h
    have hxPlain := hbody x mem_cons_self hx
    obtain ⟨c₁, hrest, hcolumn, hblock⟩ := block_of_hints (n := n) (mem_hintTable _ k) h
    -- Whichever way the indentation is found, the first line starts there.
    obtain ⟨finish, c₂, hread, hrest₂, hcolumn₂⟩ : ∃ finish c₂,
        block false n c = .ok ((blockLines false (n + 2) (c₂.rest.length + 1)
          { text := [], lastBreak := [], breaks := replicate j '\n', finish
            cursor := c₂ }).read (finalHint k).2) ∧
        c₂.rest = x :: literalText (n + 2) false (body ++ replicate k '\n') ++
          (replicate m ' ' ++ ys) ∧ c₂.column = n + 2 := by
      by_cases hfirst : j = 0 ∧ x ≠ ' '
      · obtain ⟨rfl, hspace⟩ := hfirst
        have hread := blockIndentation_eq hrest hspace hxPlain.1.1 hcolumn
          (n := c₁.rest.length + 1)
          (by simp only [hrest, length_append, length_replicate]; omega) [] c₁.mark
        rw [Nat.zero_add] at hread
        refine ⟨c₁.mark, c₁.shift (n + 2), hblock _ _ _ (fun _ => hread) ?_,
          rest_shift_spaces hrest, by rw [column_shift, hcolumn, Nat.zero_add]⟩
        rw [if_pos ⟨rfl, hspace⟩]
        rintro ⟨⟩
      · obtain ⟨finish, c₂, hread, hrest₂, hcolumn₂⟩ := blockBreaks_eq hcolumn hrest
          (Nat.le_refl (n + 2)) (fun hlt => absurd hlt (Nat.lt_irrefl _))
          (by rintro z ⟨⟩; exact hxPlain.1.1) (n := c₁.rest.length + 1)
          (by simp only [hrest, length_append, length_replicate]; omega) [] c₁.mark
        refine ⟨finish, c₂, hblock _ _ _ ?_ (fun _ => hread), hrest₂, hcolumn₂⟩
        rw [if_neg hfirst]
        rintro ⟨⟩
    have hlength : body.length < c₂.rest.length + 1 := by
      have hle := @length_le_literalText (n + 2) false (body ++ replicate k '\n')
      rw [length_append] at hle
      rw [hrest₂, length_append, length_cons]
      omega
    let done : BlockEnd :=
      { text := [], lastBreak := [], breaks := replicate j '\n', finish, cursor := c₂ }
    obtain ⟨finish', c', hc', hcolumn', hlines⟩ :=
      @blockLines_eq body ys _ m k (n + 2) done x hx hlast hbody hcolumn₂ hrest₂ hlt hys hlength
    refine ⟨finish', c', hc', hcolumn', ?_⟩
    rw [hread, hlines, BlockEnd.read, tail_finalHint]
    simp only [done, nil_append, append_assoc, cons_append]

end FlowLock.Yaml.Scalar
