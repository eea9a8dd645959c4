import FlowLock.Proofs.Text
import FlowLock.Yaml.Cursor
import Mathlib.Data.List.Induction
import Mathlib.Data.List.TakeDrop

/-!
# How a cursor moves

The text that is written here is made of lines that end with a line feed.  Inside a
line every character takes one column, so the cursor moves there in one way only, and
past a line feed it stands at the start of the next line.  All that a proof has to know
about a cursor is which characters it has before it.
-/

namespace FlowLock.Yaml

open List

/-- A character that takes one column of its line. -/
def IsInline (c : Char) : Prop := isBreak c = false ∧ c ≠ byteOrderMark

instance (c : Char) : Decidable (IsInline c) := inferInstanceAs (Decidable (_ ∧ _))

theorem isInline_space : IsInline ' ' := by decide

theorem isInline_of_mem_spaces {n : Nat} : ∀ c ∈ replicate n ' ', IsInline c := by
  intro c hc
  rw [eq_of_mem_replicate hc]
  exact isInline_space

/-- What may stand where the next token is: the end, or a character that is neither
skipped before a token nor starts a comment. -/
def StartsToken (ys : List Char) : Prop := ∀ y ∈ ys.head?, y ≠ ' ' ∧ y ≠ '#' ∧ IsInline y

/-- What stands between a mark and a block that is its value: the block starts two columns
further in, on the line of an entry mark and otherwise on the next line. -/
def lead (entry : Bool) (n : Nat) : List Char :=
  if entry then [' '] else '\n' :: replicate (n + 2) ' '

/-! ## Words and gaps -/

theorem exists_word (sep : Char) (cs : List Char) :
    ∃ word tail, cs = word ++ tail ∧ (∀ x ∈ word, x ≠ sep) ∧ ∀ x ∈ tail.head?, x = sep := by
  induction cs with
  | nil => exact ⟨[], [], rfl, by simp, by simp⟩
  | cons x cs ih =>
    by_cases hx : x = sep
    · exact ⟨[], x :: cs, rfl, by simp, by simpa using hx⟩
    · obtain ⟨word, tail, rfl, hword, htail⟩ := ih
      exact ⟨x :: word, tail, rfl, forall_mem_cons.mpr ⟨hx, hword⟩, htail⟩

theorem exists_gap (sep : Char) (cs : List Char) :
    ∃ m tail, cs = replicate m sep ++ tail ∧ tail.head? ≠ some sep := by
  induction cs with
  | nil => exact ⟨0, [], rfl, by simp⟩
  | cons x cs ih =>
    by_cases hx : x = sep
    · obtain ⟨m, tail, rfl, htail⟩ := ih
      exact ⟨m + 1, tail, by rw [hx, replicate_succ, cons_append], htail⟩
    · exact ⟨0, x :: cs, rfl, by simpa using hx⟩

/-- A text without separators at its ends: a word, and after separators another such
text. -/
theorem exists_word_gap {sep x : Char} {xs : List Char} (hfirst : x ≠ sep)
    (hlast : (x :: xs).getLast? ≠ some sep) :
    ∃ word later, xs = word ++ later ∧ (∀ y ∈ x :: word, y ≠ sep) ∧ (later = [] ∨
      ∃ m y tail, later = replicate (m + 1) sep ++ y :: tail ∧ y ≠ sep ∧
        (y :: tail).getLast? ≠ some sep) := by
  obtain ⟨word, later, rfl, hword, hlater⟩ := exists_word sep xs
  refine ⟨word, later, rfl, forall_mem_cons.mpr ⟨hfirst, hword⟩, ?_⟩
  obtain ⟨m, tail, rfl, htail⟩ := exists_gap sep later
  cases m with
  | zero =>
    cases tail with
    | nil => exact .inl rfl
    | cons y tail => exact absurd (congrArg some (hlater y rfl)) htail
  | succ m =>
    have hends : (x :: (word ++ (replicate (m + 1) sep ++ tail))).getLast? =
        tail.getLast?.or (some sep) := by
      rw [← cons_append, ← append_assoc, getLast?_append, replicate_succ',
        ← append_assoc, getLast?_concat]
    rw [hends] at hlast
    cases tail with
    | nil => exact absurd rfl hlast
    | cons y tail =>
      refine .inr ⟨m, y, tail, rfl, fun hy => htail (congrArg some hy), ?_⟩
      rw [getLast?_cons, Option.some_or] at hlast
      rwa [getLast?_cons]

theorem exists_end {sep x : Char} (hx : x ≠ sep) (xs : List Char) :
    ∃ body k, xs = body ++ replicate k sep ∧ (x :: body).getLast? ≠ some sep := by
  induction xs using reverseRecOn with
  | nil => exact ⟨[], 0, rfl, by simpa using hx⟩
  | append_singleton xs y ih =>
    by_cases hy : y = sep
    · obtain ⟨body, k, rfl, hbody⟩ := ih
      refine ⟨body, k + 1, ?_, hbody⟩
      rw [hy, append_assoc, replicate_succ']
    · refine ⟨xs ++ [y], 0, by simp, ?_⟩
      rw [← cons_append, getLast?_concat]
      simpa using hy

namespace Cursor

variable {c : Cursor} {x : Char} {xs ys : List Char} {p : Char → Bool}

def shift (c : Cursor) (n : Nat) : Cursor :=
  { c with rest := c.rest.drop n, index := c.index + n, column := c.column + n }

def newLine (c : Cursor) : Cursor :=
  { rest := c.rest.drop 1, index := c.index + 1, line := c.line + 1, column := 0 }

@[simp] theorem rest_shift (c : Cursor) (n : Nat) : (c.shift n).rest = c.rest.drop n := rfl

@[simp] theorem column_shift (c : Cursor) (n : Nat) : (c.shift n).column = c.column + n := rfl

@[simp] theorem rest_newLine (c : Cursor) : c.newLine.rest = c.rest.drop 1 := rfl

@[simp] theorem column_newLine (c : Cursor) : c.newLine.column = 0 := rfl

@[simp] theorem shift_zero (c : Cursor) : c.shift 0 = c := rfl

theorem shift_shift (c : Cursor) (m n : Nat) : (c.shift m).shift n = c.shift (m + n) := by
  simp only [shift, drop_drop, Nat.add_assoc]

theorem rest_shift_length (h : c.rest = xs ++ ys) : (c.shift xs.length).rest = ys := by
  rw [rest_shift, h, drop_left]

theorem rest_shift_spaces {n : Nat} (h : c.rest = replicate n ' ' ++ ys) :
    (c.shift n).rest = ys := by
  have hrest := rest_shift_length h
  rwa [length_replicate] at hrest

/-! ## Looking ahead -/

theorem peek_cons (h : c.rest = x :: xs) : c.peek = x := by rw [peek, h]; rfl

theorem peek_nil (h : c.rest = []) : c.peek = endChar := by rw [peek, h]; rfl

theorem peek_of_head {P : Char → Prop} (hend : P endChar) (h : ∀ x ∈ c.rest.head?, P x) :
    P c.peek := by
  cases hrest : c.rest with
  | nil => rwa [peek_nil hrest]
  | cons x xs =>
    rw [peek_cons hrest]
    exact h x (by rw [hrest]; rfl)

theorem peek_of_startsToken (h : c.rest = ys) (hys : StartsToken ys) :
    c.peek ≠ ' ' ∧ c.peek ≠ '#' ∧ IsInline c.peek := by
  refine @peek_of_head c (fun x => x ≠ ' ' ∧ x ≠ '#' ∧ IsInline x) (by decide) ?_
  rwa [h]

/-! ## Moving on -/

theorem next_of_inline (h : c.rest = x :: xs) (hx : IsInline x) : c.next = c.shift 1 := by
  have hbreak : isBreak x = false := hx.1
  have hmark : (x == byteOrderMark) = false := beq_eq_false_iff_ne.mpr hx.2
  unfold next shift
  rw [h]
  simp [hbreak, hmark]

theorem next_of_lineFeed (h : c.rest = '\n' :: xs) : c.next = c.newLine := by
  unfold next newLine
  rw [h]
  rfl

theorem advance_of_inline (h : c.rest = xs ++ ys) (hxs : ∀ x ∈ xs, IsInline x) :
    c.advance xs.length = c.shift xs.length := by
  induction xs generalizing c with
  | nil => rfl
  | cons x xs ih =>
    rw [forall_mem_cons] at hxs
    have hnext := next_of_inline (h.trans cons_append) hxs.1
    have hrest : c.next.rest = xs ++ ys := by
      rw [hnext, rest_shift, h, cons_append, drop_one, tail_cons]
    rw [length_cons, advance, ih hrest hxs.2, hnext, shift_shift, Nat.add_comm]

theorem run_of_head (h : ∀ y ∈ c.rest.head?, p y = false) : c.run p = [] :=
  Text.takeWhile_append_of_head (fun _ hx => absurd hx not_mem_nil) h

theorem run_eq (h : c.rest = xs ++ ys) (hxs : ∀ x ∈ xs, p x)
    (hys : ∀ y ∈ ys.head?, p y = false) : c.run p = xs := by
  rw [run, h, Text.takeWhile_append_of_head hxs hys]

theorem run_spaces {n : Nat} (h : c.rest = replicate n ' ' ++ ys)
    (hys : ∀ y ∈ ys.head?, y ≠ ' ') : c.run (· == ' ') = replicate n ' ' := by
  refine run_eq h ?_ fun y hy => beq_eq_false_iff_ne.mpr (hys y hy)
  intro x hx
  rw [eq_of_mem_replicate hx]
  rfl

theorem skipSpaces_eq {n : Nat} (h : c.rest = replicate n ' ' ++ ys)
    (hys : ∀ y ∈ ys.head?, y ≠ ' ') : c.skipSpaces = c.shift n := by
  rw [skipSpaces, skipWhile, run_spaces h hys, advance_of_inline h isInline_of_mem_spaces,
    length_replicate]

theorem lineBreak_of_lineFeed (h : c.rest = '\n' :: xs) : c.lineBreak = (['\n'], c.newLine) := by
  have hpeek : c.peek = '\n' := peek_cons h
  rw [lineBreak, hpeek, next_of_lineFeed h]
  rfl

end Cursor

end FlowLock.Yaml
