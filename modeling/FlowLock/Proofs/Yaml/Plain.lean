import FlowLock.Proofs.Yaml.Cursor
import FlowLock.Yaml.Token.Scalar
import FlowLock.Yaml.Writer.Analysis

/-!
# Plain scalars read back

A plain scalar is read in words and gaps like a quoted one, but nothing marks its end:
it ends where a word could not go on.  A text is written plain only when none of its own
characters ends it, so it ends at what is written after it, the mark of a value or a
line feed.
-/

namespace FlowLock.Yaml

open Cursor List Bool

namespace Analysis

variable {before : Option Char} {xs : List Char}

theorem hasIndicator_cons {x : Char} (h : hasIndicator before (x :: xs) = false) :
    isIndicator before x xs = false ∧ hasIndicator (some x) xs = false := by
  rwa [hasIndicator, or_eq_false_iff] at h

theorem hasIndicator_append {ys : List Char} {d : Char}
    (h : hasIndicator before (xs ++ d :: ys) = false) : hasIndicator (some d) ys = false := by
  induction xs generalizing before with
  | nil => exact (hasIndicator_cons h).2
  | cons x xs ih => exact ih (hasIndicator_cons h).2

theorem colon_of_isIndicator {x : Char} (h : isIndicator before x xs = false) :
    (x == ':' && isBlankOrEnd (xs.headD endChar)) = false := by
  cases before with
  | none =>
    simp only [isIndicator, or_eq_false_iff] at h
    rw [and_eq_false_iff] at h ⊢
    refine h.2.imp_left fun hmark => ?_
    simp only [or_eq_false_iff] at hmark
    exact hmark.1.2
  | some b =>
    simp only [isIndicator, or_eq_false_iff] at h
    exact h.1

end Analysis

namespace Scalar

variable {c : Cursor} {xs ys : List Char} {n m : Nat} {indent : Int} {x : Char}
  {before : Option Char} {move : Cursor → Cursor}

/-! ## Gaps -/

theorem plainBreaks_spaces (h : c.rest = replicate m ' ' ++ ys) (hys : StartsToken ys)
    (hn : c.rest.length ≤ n) (breaks : List Char) :
    plainBreaks n c breaks = (some breaks, c.shift m) := by
  induction m generalizing c n with
  | zero =>
    cases n with
    | zero => rfl
    | succ n =>
      obtain ⟨hspace, -, hinline⟩ := peek_of_startsToken h hys
      rw [plainBreaks, if_neg (mt beq_iff_eq.mp hspace), hinline.1]
      rfl
  | succ m ih =>
    rw [replicate_succ, cons_append] at h
    rw [h, length_cons] at hn
    rcases n with _ | n
    · cases hn
    have hrest : (c.shift 1).rest = replicate m ' ' ++ ys := by
      rw [rest_shift, h]
      rfl
    rw [plainBreaks, peek_cons h, if_pos (beq_self_eq_true ' '),
      next_of_inline h isInline_space, ih hrest (by rw [hrest]; omega), shift_shift,
      Nat.add_comm]

theorem not_atSeparator (h : c.rest = ' ' :: xs) : c.atSeparator = false := by
  rw [atSeparator, atMarker, atMarker, peek_cons h]
  rfl

theorem plainGap_of_lineFeed (h : c.rest = '\n' :: (replicate m ' ' ++ ys))
    (hys : StartsToken ys) :
    (plainGap c).broken ∧ (plainGap c).cursor = c.newLine.shift m := by
  have hrun : c.run (· == ' ') = [] := by
    refine run_of_head ?_
    rw [h]
    rintro y ⟨⟩
    rfl
  have hnext : c.newLine.rest = replicate m ' ' ++ ys := by rw [rest_newLine, h]; rfl
  have hbreak : isBreak (c.advance 0).peek := by rw [advance, peek_cons h]; rfl
  rw [plainGap, hrun]
  simp only [length_nil, hbreak, if_true]
  rw [advance, lineBreak_of_lineFeed h]
  simp only
  split
  case isTrue hseparator =>
    -- A separator stands at the start of its line.
    cases m with
    | zero => exact ⟨rfl, rfl⟩
    | succ m => rw [not_atSeparator hnext] at hseparator; cases hseparator
  case isFalse =>
    rw [plainBreaks_spaces hnext hys (Nat.le_refl _)]
    exact ⟨rfl, rfl⟩

theorem plainGap_of_spaces (h : c.rest = replicate m ' ' ++ x :: ys) (hspace : x ≠ ' ')
    (hbreak : isBreak x = false) :
    plainGap c = { text := replicate m ' ', broken := false, cursor := c.shift m } := by
  have hrun : c.run (· == ' ') = replicate m ' ' := by
    refine run_spaces h ?_
    rintro y ⟨⟩
    exact hspace
  have hpeek : isBreak (c.shift m).peek = false := by
    rwa [peek_cons (rest_shift_spaces h)]
  rw [plainGap, hrun, advance_of_inline h isInline_of_mem_spaces, length_replicate]
  simp only [hpeek]
  rfl

/-! ## Words -/

/-- What ends a plain scalar, for a reader that then stands at the cursor given. -/
structure EndsPlain (indent : Int) (ys : List Char) (broken : Bool) (move : Cursor → Cursor) :
    Prop where
  stop : plainLength false ys = 0
  gap : ∀ c : Cursor, c.rest = ys → (plainGap c).broken = broken ∧ (plainGap c).cursor = move c ∧
      ((plainGap c).text = [] ∨ Int.ofNat (plainGap c).cursor.column < indent)

/-- A character of a plain scalar: it takes one column, and of the blanks it can only be
the space. -/
def IsPlainChar (x : Char) : Prop := IsInline x ∧ (x ≠ ' ' → isBlankOrEnd x = false)

theorem endsPlain_eq_false (hx : isBlankOrEnd x = false)
    (hcolon : (x == ':' && isBlankOrEnd (xs.headD endChar)) = false) :
    endsPlain false x (xs ++ ys) = false := by
  simp only [endsPlain, hx, Bool.false_or, Bool.false_and, Bool.or_false]
  rw [Bool.and_eq_false_iff] at hcolon ⊢
  refine hcolon.imp_right fun hafter => ?_
  cases xs with
  | nil => cases hafter
  | cons y xs => exact hafter

theorem plainLength_eq (hxs : ∀ x ∈ xs, IsPlainChar x)
    (hind : Analysis.hasIndicator before xs = false) (hys : plainLength false ys = 0) :
    plainLength false (xs ++ ys) = (xs.takeWhile (· != ' ')).length := by
  induction xs generalizing before with
  | nil => exact hys
  | cons x xs ih =>
    rw [forall_mem_cons] at hxs
    obtain ⟨hfirst, hlater⟩ := Analysis.hasIndicator_cons hind
    rw [cons_append, plainLength, takeWhile_cons]
    by_cases hx : x = ' '
    · subst hx
      rfl
    · have hends : endsPlain false x (xs ++ ys) = false :=
        endsPlain_eq_false (hxs.1.2 hx) (Analysis.colon_of_isIndicator hfirst)
      rw [hends, if_neg Bool.false_ne_true, if_pos (bne_iff_ne.mpr hx), ih hxs.2 hlater]
      rfl

theorem hash_of_isIndicator (hbefore : before = none ∨ before = some ' ')
    (h : Analysis.isIndicator before x xs = false) : x ≠ '#' := by
  rintro rfl
  obtain rfl | rfl := hbefore
  · simp [Analysis.isIndicator] at h
  · cases h

def Read.word (done : Read) (gap word : List Char) : Read :=
  let c := done.cursor.shift word.length
  { text := done.text ++ gap ++ word, finish := c.mark, broken := (plainGap c).broken
    cursor := (plainGap c).cursor }

theorem plainFrom_succ {done : Read} {gap word : List Char} (h : done.cursor.rest = x :: word ++ ys)
    (hx : x ≠ '#') (hword : ∀ y ∈ x :: word, IsInline y)
    (hlength : plainLength false done.cursor.rest = (x :: word).length) :
    plainFrom false indent (n + 1) done gap =
      let next := plainGap (done.cursor.shift (x :: word).length)
      if next.text.isEmpty || next.cursor.peek == '#' ||
          decide (Int.ofNat next.cursor.column < indent) then done.word gap (x :: word)
      else plainFrom false indent n (done.word gap (x :: word)) next.text := by
  have hpeek : ¬ (done.cursor.peek == '#') := by
    rw [peek_cons (h.trans cons_append), beq_iff_eq]
    exact hx
  have htake : done.cursor.rest.take (x :: word).length = x :: word := by
    rw [h, take_left]
  rw [plainFrom, if_neg hpeek, hlength]
  dsimp only
  rw [htake, advance_of_inline h hword]
  rfl

theorem plainFrom_eq {broken : Bool} (hend : EndsPlain indent ys broken move)
    (hbefore : before = none ∨ before = some ' ') {done : Read} {gap : List Char}
    (hxs : ∀ y ∈ x :: xs, IsPlainChar y) (hfirst : x ≠ ' ') (hlast : (x :: xs).getLast? ≠ some ' ')
    (hind : Analysis.hasIndicator before (x :: xs) = false) (h : done.cursor.rest = x :: xs ++ ys)
    (hcolumn : indent ≤ done.cursor.column + 1) (hn : xs.length < n) :
    ∃ finish, plainFrom false indent n done gap =
      { text := done.text ++ gap ++ x :: xs, finish, broken
        cursor := move (done.cursor.shift (x :: xs).length) } := by
  induction hlength : xs.length using Nat.strongRecOn generalizing x xs before done gap n with
  | _ length ih =>
  rcases n with _ | n
  · cases hn
  obtain ⟨word, later, rfl, hword, hlater⟩ := exists_word_gap hfirst hlast
  have hhash := hash_of_isIndicator hbefore (Analysis.hasIndicator_cons hind).1
  have hstops : ∀ y ∈ later.head?, (y != ' ') = false := by
    obtain rfl | ⟨m, y, tail, rfl, -⟩ := hlater
    · simp
    · rintro y ⟨⟩
      rfl
  have hplain : plainLength false done.cursor.rest = (x :: word).length := by
    rw [h, plainLength_eq hxs hind hend.stop, ← cons_append,
      Text.takeWhile_append_of_head (fun y hy => bne_iff_ne.mpr (hword y hy)) hstops]
  have hinline : ∀ y ∈ x :: word, IsInline y := fun y hy => (hxs y (mem_append_left later hy)).1
  rw [← cons_append, append_assoc] at h
  rw [plainFrom_succ h hhash hinline hplain]
  dsimp only
  obtain rfl | ⟨m, y, tail, rfl, hy, htail⟩ := hlater
  · -- The last word.
    obtain ⟨hbroken, hcursor, hstop⟩ := hend.gap _ (rest_shift_length h)
    rw [if_pos, Read.word, hbroken, hcursor, append_nil]
    · exact ⟨_, rfl⟩
    · obtain hempty | hless := hstop
      · rw [hempty]
        rfl
      · rw [decide_eq_true hless, Bool.or_true]
  · have hrest := rest_shift_length h
    rw [append_assoc] at hrest
    have hindLater : Analysis.hasIndicator (some ' ') (y :: tail) = false := by
      rw [← cons_append, replicate_succ', append_assoc, ← append_assoc] at hind
      exact Analysis.hasIndicator_append hind
    have hhashLater := hash_of_isIndicator (.inr rfl) (Analysis.hasIndicator_cons hindLater).1
    have hxsLater : ∀ z ∈ y :: tail, IsPlainChar z := fun z hz =>
      hxs z (mem_cons_of_mem _ (mem_append_right _ (mem_append_right _ hz)))
    have hgap := plainGap_of_spaces hrest hy (hxsLater y mem_cons_self).1.1
    have hcursor : (done.word gap (x :: word)).cursor =
        done.cursor.shift ((x :: word).length + (m + 1)) := by
      rw [Read.word, hgap, shift_shift]
    have hrestLater : (done.word gap (x :: word)).cursor.rest = y :: tail ++ ys := by
      rw [hcursor, ← shift_shift, rest_shift_spaces hrest]
    have hcolumnLater : indent ≤ (done.word gap (x :: word)).cursor.column + 1 := by
      rw [hcursor, column_shift]
      omega
    simp only [length_append, length_replicate, length_cons] at hn hlength
    obtain ⟨finish, hread⟩ := @ih tail.length (by omega) _ n y (some ' ') (.inr rfl)
      (done.word gap (x :: word)) (replicate (m + 1) ' ') hxsLater hy htail hindLater
      hrestLater hcolumnLater (by omega) rfl
    rw [if_neg, hgap]
    · refine ⟨finish, hread.trans ?_⟩
      have htext : (done.word gap (x :: word)).text = done.text ++ gap ++ x :: word := rfl
      have hshift : (x :: word).length + (m + 1) + (y :: tail).length =
          (x :: (word ++ (replicate (m + 1) ' ' ++ y :: tail))).length := by
        simp only [length_append, length_replicate, length_cons]
        omega
      rw [hcursor, shift_shift, hshift, htext]
      simp only [append_assoc, cons_append]
    · have hpeek := peek_cons (rest_shift_spaces hrest)
      rw [hgap, or_eq_true, or_eq_true, decide_eq_true_eq, hpeek, beq_iff_eq]
      rintro ((hempty | hmark) | hless)
      · cases hempty
      · exact hhashLater hmark
      · have hwide : Int.ofNat (done.cursor.column + (x :: word).length + (m + 1)) < indent := hless
        rw [length_cons] at hwide
        simp only [Int.ofNat_eq_natCast] at hwide
        omega

/-- **Plain scalars read back.**  A text that starts and ends without a space and has no
indicator in it is what the scalar is read as. -/
theorem plain_eq {broken : Bool} (hend : EndsPlain indent ys broken move)
    (hxs : ∀ y ∈ x :: xs, IsPlainChar y) (hfirst : x ≠ ' ') (hlast : (x :: xs).getLast? ≠ some ' ')
    (hind : Analysis.hasIndicator none (x :: xs) = false) (h : c.rest = x :: xs ++ ys)
    (hcolumn : indent ≤ c.column + 1) :
    ∃ finish, plain false indent c =
      { text := x :: xs, finish, broken, cursor := move (c.shift (x :: xs).length) } := by
  refine plainFrom_eq hend (.inl rfl) hxs hfirst hlast hind h hcolumn ?_
  rw [h, length_append, length_cons]
  omega

/-- A text that can be written plain: no space at its ends, and nothing in it that would
end it or start something else. -/
structure PlainText (cs : List Char) : Prop where
  ne_nil : cs ≠ []
  chars : ∀ x ∈ cs, IsPlainChar x
  first : cs.head? ≠ some ' '
  last : cs.getLast? ≠ some ' '
  indicator : Analysis.hasIndicator none cs = false
  separator : Analysis.startsLikeSeparator cs = false

theorem PlainText.atMarker {cs : List Char} {ch : Char} (hcs : PlainText cs)
    (hch : ch = '-' ∨ ch = '.') (h : c.rest = cs ++ ys) (hys : ∀ y ∈ ys.head?, y ≠ ch) :
    c.atMarker ch = false := by
  have hnone : ys.getD 0 endChar ≠ ch := by
    cases ys with
    | nil => obtain rfl | rfl := hch <;> decide
    | cons y ys => exact hys y rfl
  rw [← not_eq_true]
  intro hmarker
  simp only [Cursor.atMarker, and_eq_true, beq_iff_eq] at hmarker
  obtain ⟨⟨⟨hzero, hone⟩, htwo⟩, -⟩ := hmarker
  rw [peekAt, h] at hone htwo
  match cs, hcs, h with
  | [], hcs, _ => exact hcs.ne_nil rfl
  | [x], _, _ => exact hnone hone
  | [x, y], _, _ => exact hnone htwo
  | x :: y :: z :: cs, hcs, h =>
    have hfirst : x = ch := (peek_cons h).symm.trans hzero
    have hsecond : y = ch := hone
    have hthird : z = ch := htwo
    have hseparator := hcs.separator
    subst hfirst hsecond hthird
    obtain rfl | rfl := hch <;> cases hseparator

theorem endsPlain_colon (indent : Int) (hys : isBlankOrEnd (ys.headD endChar)) :
    EndsPlain indent (':' :: ys) false id where
  stop := by
    rw [plainLength, endsPlain, hys]
    rfl
  gap := by
    intro c h
    have hgap := @plainGap_of_spaces c ys 0 ':' h (by decide) (by decide)
    rw [hgap]
    exact ⟨rfl, rfl, .inl rfl⟩

theorem endsPlain_lineFeed (hys : StartsToken ys) (hm : Int.ofNat m < indent) :
    EndsPlain indent ('\n' :: (replicate m ' ' ++ ys)) true
      (fun c => c.newLine.shift m) where
  stop := rfl
  gap := by
    intro c h
    obtain ⟨hbroken, hcursor⟩ := plainGap_of_lineFeed h hys
    refine ⟨hbroken, hcursor, .inr ?_⟩
    rwa [hcursor, column_shift, column_newLine, Nat.zero_add]

end Scalar

end FlowLock.Yaml
