import FlowLock.Proofs.Yaml.Literal
import FlowLock.Proofs.Yaml.Quoted

/-!
# What is written on a sheet

A line is ended only when the next one is started, so what a value has written is told by
what stands on the sheet once the pen has moved on to an indentation.  Said in this way a
literal block, which ends its last line itself, is like every other value.
-/

namespace FlowLock.Yaml.Sheet

open List Text

variable {s : Sheet} {n i : Nat} {cs xs : List Char} {entry : Bool} {s' : Sheet}

@[simp] theorem toList_put (s : Sheet) (more : String) :
    (s.put more).text.toList = s.text.toList ++ more.toList := String.toList_append

@[simp] theorem toList_breakLine (s : Sheet) (mark : Char) :
    (s.breakLine mark).text.toList = s.text.toList ++ [mark] := String.toList_push mark

theorem toList_repeated_space (k : Nat) : (repeated " " k).toList = replicate k ' ' := by
  rw [repeated, String.toList_join]
  induction k with
  | zero => rfl
  | succ k ih => rw [replicate_succ, flatMap_cons, ih]; rfl

theorem length_repeated_space (k : Nat) : (repeated " " k).length = k := by
  rw [← String.length_toList, toList_repeated_space, length_replicate]

/-! ## Line starts -/

/-- The pen at a column, with nothing before it in its line but indentation and entry
marks. -/
structure At (s : Sheet) (i : Nat) (cs : List Char) : Prop where
  text : s.text.toList = cs
  column : s.column = i
  spaced : s.spaced = true
  atIndent : s.atIndent = true

/-- The pen after a mark in a block at column `n`. -/
structure Marked (s : Sheet) (n : Nat) (entry : Bool) (cs : List Char) : Prop where
  text : s.text.toList = cs
  spaced : s.spaced = false
  atIndent : s.atIndent = entry
  column : entry = true → s.column = n + 1

/-- The text on a sheet after a value in a block at column `n`, its last line ended. -/
def Ended (s : Sheet) (n : Nat) (cs : List Char) : Prop :=
  ∀ i ≤ n, At (s.toIndent i) i (cs ++ replicate i ' ')

theorem Ended.mono {m : Nat} (h : Ended s n cs) (hm : m ≤ n) : Ended s m cs :=
  fun i hi => h i (Nat.le_trans hi hm)

theorem pad_at (hcolumn : s.column ≤ i) (hspaced : s.column = i → s.spaced)
    (hindent : s.atIndent) :
    At (if s.column < i then { s.put (repeated " " (i - s.column)) with spaced := true } else s)
      i (s.text.toList ++ replicate (i - s.column) ' ') := by
  split
  case isTrue h =>
    refine ⟨?_, ?_, rfl, hindent⟩
    · exact (toList_put _ _).trans (by rw [toList_repeated_space])
    · change s.column + (repeated " " (i - s.column)).length = i
      rw [length_repeated_space]
      omega
  case isFalse h =>
    obtain rfl : s.column = i := by omega
    refine ⟨?_, rfl, hspaced rfl, hindent⟩
    rw [Nat.sub_self, replicate_zero, append_nil]

theorem toIndent_of_break
    (h : (!s.atIndent || s.column > i || (s.column == i && !s.spaced))) :
    At (s.toIndent i) i (s.text.toList ++ '\n' :: replicate i ' ') := by
  have hat := @pad_at (s.breakLine '\n') i (Nat.zero_le i) (fun _ => rfl) rfl
  rw [toList_breakLine, append_assoc, singleton_append] at hat
  rw [toIndent, if_pos h]
  exact hat

theorem toIndent_of_stay (hcolumn : s.column ≤ i) (hspaced : s.column = i → s.spaced)
    (hindent : s.atIndent) :
    At (s.toIndent i) i (s.text.toList ++ replicate (i - s.column) ' ') := by
  have hstay : ¬ (!s.atIndent || s.column > i || (s.column == i && !s.spaced)) := by
    simp only [hindent, Bool.not_true, Bool.false_or, Bool.or_eq_true, decide_eq_true_eq,
      Bool.and_eq_true, beq_iff_eq, Bool.not_eq_true']
    rintro (hlt | ⟨heq, hnot⟩)
    · omega
    · rw [hspaced heq] at hnot
      cases hnot
  rw [toIndent, if_neg hstay]
  exact pad_at hcolumn hspaced hindent

theorem ended_of_line (h : s.atIndent = false) (n : Nat) : Ended s n (s.text.toList ++ ['\n']) := by
  intro i _
  have hat := @toIndent_of_break s i (by rw [h]; rfl)
  rwa [append_assoc, singleton_append]

theorem At.ended (h : At s 0 cs) (n : Nat) : Ended s n cs := by
  intro i _
  have hat := @toIndent_of_stay s i (by rw [h.column]; exact Nat.zero_le i) (fun _ => h.spaced)
    h.atIndent
  rwa [h.column, h.text, Nat.sub_zero] at hat

theorem Marked.ended (h : Marked s n entry cs) : Ended s n (cs ++ ['\n']) := by
  intro i hi
  have hat := @toIndent_of_break s i ?_
  · rwa [h.text, ← singleton_append, ← append_assoc] at hat
  · rw [h.atIndent]
    cases entry with
    | false => rfl
    | true =>
      rw [h.column rfl, decide_eq_true (by omega : n + 1 > i)]
      rfl

/-- A block after a mark: two columns further in, on the line of an entry mark or on the
next. -/
theorem Marked.toBlock (h : Marked s n entry cs) :
    At (s.toIndent (n + 2)) (n + 2) (cs ++ lead entry n) := by
  cases entry with
  | true =>
    have hat := @toIndent_of_stay s (n + 2) (by rw [h.column rfl]; omega)
      (fun heq => by rw [h.column rfl] at heq; omega) h.atIndent
    rwa [h.text, h.column rfl, (by omega : n + 2 - (n + 1) = 1)] at hat
  | false =>
    have hat := @toIndent_of_break s (n + 2) (by rw [h.atIndent]; rfl)
    rwa [h.text] at hat

theorem At.mark {mark : String} (h : At s i cs) (hmark : mark.length = 1) :
    Marked (s.indicator mark true false true) i true (cs ++ mark.toList) := by
  have hput : s.put (if s.spaced || !true then mark else " " ++ mark) = s.put mark := by
    rw [h.spaced]
    rfl
  rw [indicator, hput]
  refine ⟨?_, rfl, ?_, fun _ => ?_⟩
  · rw [← h.text, ← toList_put]
  · change (s.atIndent && true)
    rw [h.atIndent]
    rfl
  · change s.column + mark.length = i + 1
    rw [h.column, hmark]

/-! ## Scalars -/

/-- A piece written in a line, after a blank where there is none. -/
structure Writes (s s' : Sheet) (xs : List Char) : Prop where
  text : s'.text.toList = s.text.toList ++ (if s.spaced then xs else ' ' :: xs)
  spaced : s'.spaced = false
  atIndent : s'.atIndent = false

theorem indicator_apart (s : Sheet) (mark : String) (spaced entry : Bool) :
    (s.indicator mark true spaced entry).text.toList =
      s.text.toList ++ (if s.spaced then mark.toList else ' ' :: mark.toList) := by
  refine (toList_put _ _).trans (congrArg (s.text.toList ++ ·) ?_)
  cases s.spaced with
  | true => rfl
  | false => exact String.toList_append

theorem indicator_close (s : Sheet) (mark : String) (spaced entry : Bool) :
    (s.indicator mark false spaced entry).text.toList = s.text.toList ++ mark.toList := by
  refine (toList_put _ _).trans ?_
  rw [Bool.not_false, Bool.or_true]
  rfl

theorem writes_plain (hcs : cs ≠ []) : Writes s (s.plain cs) cs := by
  have hempty : cs.isEmpty = false := isEmpty_eq_false_iff.mpr hcs
  rw [plain, hempty, if_neg Bool.false_ne_true]
  refine ⟨?_, rfl, rfl⟩
  refine (toList_put _ _).trans ?_
  rw [String.toList_ofList]
  cases s.spaced with
  | true => rfl
  | false =>
    rw [if_neg Bool.false_ne_true, toList_put, if_neg Bool.false_ne_true, append_assoc]
    rfl

theorem writes_quoted {mark : String}
    (htext : s'.text.toList = (s.indicator mark true false false).text.toList ++ xs) :
    Writes s (s'.indicator mark false false false) (mark.toList ++ (xs ++ mark.toList)) where
  text := by
    rw [indicator_close, htext, indicator_apart]
    cases s.spaced <;> simp
  spaced := rfl
  atIndent := Bool.and_false _

theorem writes_double :
    Writes s (s.double cs) ('"' :: (cs.flatMap (fun c => (doubleChar c).toList) ++ ['"'])) := by
  refine writes_quoted ?_
  rw [toList_put, String.toList_join, flatMap_map]

theorem toList_singleChars (hcs : ∀ c ∈ cs, Analysis.isWrittenBreak c = false) :
    (singleChars i false s cs).text.toList = s.text.toList ++ cs.flatMap Scalar.singleSpelling := by
  induction cs generalizing s with
  | nil => exact (append_nil _).symm
  | cons c cs ih =>
    rw [forall_mem_cons] at hcs
    rw [singleChars, hcs.1, if_neg Bool.false_ne_true, if_neg Bool.false_ne_true, ih hcs.2,
      toList_put, flatMap_cons, append_assoc, Scalar.singleSpelling]
    split
    · rfl
    · rw [String.toList_singleton]

theorem writes_single (hcs : ∀ c ∈ cs, Analysis.isWrittenBreak c = false) :
    Writes s (s.single i cs) ('\'' :: (cs.flatMap Scalar.singleSpelling ++ ['\''])) :=
  writes_quoted (toList_singleChars hcs)

theorem Marked.writes (h : Marked s n entry cs) (hwrites : Writes s s' xs) :
    Ended s' n (cs ++ ' ' :: (xs ++ ['\n'])) := by
  have hended := ended_of_line hwrites.atIndent n
  rwa [hwrites.text, h.spaced, h.text, if_neg Bool.false_ne_true, append_assoc,
    cons_append] at hended

theorem literalChars_at {width : Nat} {start : Bool}
    (hcs : ∀ c ∈ cs, c ≠ '\n' → Analysis.isWrittenBreak c = false)
    (hstart : start → At s 0 s.text.toList) :
    At (literalChars width start s cs) 0
      (s.text.toList ++ Scalar.literalText width start cs) := by
  induction cs generalizing s start with
  | nil =>
    cases start with
    | true =>
      have hat := hstart rfl
      rwa [literalChars, if_pos rfl, Scalar.literalText, if_pos rfl, append_nil]
    | false =>
      rw [literalChars, if_neg Bool.false_ne_true, Scalar.literalText, if_neg Bool.false_ne_true]
      exact ⟨toList_breakLine _ _, rfl, rfl, rfl⟩
  | cons c cs ih =>
    rw [forall_mem_cons] at hcs
    rw [literalChars, Scalar.literalText]
    by_cases hc : c = '\n'
    · have hat := @ih (s.breakLine '\n') true hcs.2
        fun _ => ⟨rfl, rfl, rfl, rfl⟩
      rw [toList_breakLine, append_assoc, singleton_append] at hat
      subst hc
      rw [if_pos rfl, if_pos (by decide)]
      exact hat
    · rw [hcs.1 hc, if_neg hc, if_neg Bool.false_ne_true]
      cases start with
      | true =>
        have hpad := (hstart rfl).ended width width (Nat.le_refl width)
        have hat := @ih { s.toIndent width with text := (s.toIndent width).text.push c } false hcs.2
          (fun h => by cases h)
        rw [String.toList_push, hpad.text, append_assoc, append_assoc] at hat
        rw [if_pos rfl, if_pos rfl]
        exact hat
      | false =>
        have hat := @ih { s with text := s.text.push c } false hcs.2 (fun h => by cases h)
        rw [String.toList_push, append_assoc] at hat
        rw [if_neg Bool.false_ne_true, if_neg Bool.false_ne_true]
        exact hat

theorem Marked.literal (h : Marked s n entry xs)
    (hcs : ∀ c ∈ cs, c ≠ '\n' → Analysis.isWrittenBreak c = false) :
    Ended (s.literal i cs) n
      (xs ++ ' ' :: '|' :: ((literalHints cs).toList ++
        '\n' :: Scalar.literalText i true cs)) := by
  have hhints : (s.indicator ("|" ++ literalHints cs) true false false).text.toList =
      xs ++ ' ' :: '|' :: (literalHints cs).toList := by
    rw [indicator_apart, h.spaced, h.text, if_neg Bool.false_ne_true, String.toList_append]
    rfl
  have hat := @literalChars_at
    (breakLine { s.indicator ("|" ++ literalHints cs) true false false with
      openEnded := (literalHints cs).toList.getLast? == some '+' } '\n') cs i true hcs
    fun _ => ⟨rfl, rfl, rfl, rfl⟩
  rw [toList_breakLine, hhints] at hat
  simp only [append_assoc, cons_append, nil_append] at hat
  exact hat.ended n

theorem writes_empty (opening closing : String) :
    Writes s ((s.indicator opening true true false).indicator closing false false false)
      (opening.toList ++ closing.toList) where
  text := by
    rw [indicator_close, indicator_apart]
    cases s.spaced <;> simp
  spaced := rfl
  atIndent := Bool.and_false _

theorem At.simpleKey (h : At s i cs) (hwrites : Writes s s' xs) :
    Marked (s'.indicator ":" false false false) i false (cs ++ (xs ++ [':'])) where
  text := by
    rw [indicator_close, hwrites.text, h.spaced, h.text, if_pos rfl, append_assoc]
    rfl
  spaced := rfl
  atIndent := Bool.and_false _
  column := fun hentry => by cases hentry

end FlowLock.Yaml.Sheet
