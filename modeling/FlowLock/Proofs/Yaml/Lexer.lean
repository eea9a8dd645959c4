import FlowLock.Proofs.Yaml.Cursor
import FlowLock.Yaml.Token.Lexer
import Mathlib.Logic.Relation

/-!
# Steps of the lexer

A step of the lexer skips the blanks before a token and reads the token.  What has been
written is followed step by step: a state *stands* at a token when the blanks before it are
passed, and it is *after* a mark when the value that the mark announces comes next.  Blocks
that end before a token are closed without a step, so states are compared by what the next
step makes of them.
-/

namespace FlowLock.Yaml.Lexer

open Cursor List

open Relation (ReflTransGen)

variable {l l' r : Lexer} {kinds : List TokenKind} {indent : Int} {outer : List Int}
  {m n : Nat} {xs ys tok : List Char} {column : Int}

/-! ## Steps -/

theorem fetch_eq (l : Lexer) : l.fetch = l.toNext.dropStale >>= readToken := by
  delta fetch
  rfl

/-- A step that is not the last one: it reads a token and passes characters. -/
structure Step (l l' : Lexer) : Prop where
  fetch : l.fetch = .ok l'
  more : l'.isDone = false
  shorter : l'.cursor.rest.length < l.cursor.rest.length

/-- Steps lead from one state to another that stands at the next token. -/
def Reaches (l r : Lexer) : Prop :=
  ∃ l', ReflTransGen Step l l' ∧ l'.fetch = r.readToken ∧
    r.cursor.rest.length ≤ l'.cursor.rest.length

theorem Reaches.step (h : Reaches l r) (hread : r.readToken = .ok l') (hmore : l'.isDone = false)
    (hshorter : l'.cursor.rest.length < r.cursor.rest.length) : ReflTransGen Step l l' := by
  obtain ⟨k, hsteps, hfetch, hlength⟩ := h
  exact hsteps.tail ⟨hfetch.trans hread, hmore, Nat.lt_of_lt_of_le hshorter hlength⟩

theorem Reaches.congr {r' : Lexer} (h : Reaches l r) (hread : r.readToken = r'.readToken)
    (hrest : r.cursor.rest = r'.cursor.rest) : Reaches l r' := by
  obtain ⟨k, hsteps, hfetch, hlength⟩ := h
  exact ⟨k, hsteps, hfetch.trans hread, hrest ▸ hlength⟩

theorem reaches_of_ready (hsteps : ReflTransGen Step l l') (hready : l'.toNext.dropStale = .ok r)
    (hlength : r.cursor.rest.length ≤ l'.cursor.rest.length) : Reaches l r := by
  refine ⟨l', hsteps, ?_, hlength⟩
  rw [fetch_eq, hready]
  rfl

theorem run_succ (h : l.fetch = .ok l') :
    run (n + 1) l = if l'.isDone then (l'.tokens.reverse, none) else run n l' := by
  rw [run, h]

theorem run_of_steps (h : ReflTransGen Step l l') (hn : l.cursor.rest.length < n) :
    ∃ k, l'.cursor.rest.length < k ∧ run n l = run k l' := by
  induction h using ReflTransGen.head_induction_on generalizing n with
  | refl => exact ⟨n, hn, rfl⟩
  | head hstep _ ih =>
    rcases n with _ | n
    · cases hn
    obtain ⟨k, hk, hrun⟩ := @ih n (by have := hstep.shorter; omega)
    refine ⟨k, hk, ?_⟩
    rw [run_succ hstep.fetch, hstep.more, if_neg Bool.false_ne_true, hrun]

/-- A document is cut into the tokens that steps and a last token lead to. -/
theorem run_of_reaches (h : Reaches l r) (hread : r.readToken = .ok l') (hdone : l'.isDone)
    (hn : l.cursor.rest.length < n) : run n l = (l'.tokens.reverse, none) := by
  obtain ⟨k, hsteps, hfetch, -⟩ := h
  obtain ⟨n, hlt, hrun⟩ := run_of_steps hsteps hn
  rcases n with _ | n
  · cases hlt
  rw [hrun, run_succ (hfetch.trans hread), hdone, if_pos rfl]

/-! ## Blanks -/

theorem inFlow_eq (hflow : l.flowLevel = 0) : l.inFlow = false := by rw [inFlow, hflow]; rfl

theorem toNext_eq (h : l.cursor.peek ≠ byteOrderMark) :
    l.toNext = skipBlank (l.cursor.rest.length + 1) l := by
  have hmark : ¬ (l.cursor.index == 0 && l.cursor.peek == byteOrderMark) := by
    rw [Bool.and_eq_true, beq_iff_eq, beq_iff_eq]
    exact fun hboth => h hboth.2
  rw [toNext, if_neg hmark]

theorem skipComment_of_startsToken {c : Cursor} (h : c.rest = tok) (htok : StartsToken tok) :
    c.skipComment = c := by
  rw [skipComment, if_neg (mt beq_iff_eq.mp (peek_of_startsToken h htok).2.1)]

theorem skipBlank_spaces (h : l.cursor.rest = replicate m ' ' ++ tok)
    (htok : StartsToken tok) : skipBlank (n + 1) l = { l with cursor := l.cursor.shift m } := by
  have hrest := rest_shift_spaces h
  have hspaces := skipSpaces_eq h fun y hy => (htok y hy).1
  have hbreak := (peek_of_startsToken hrest htok).2.2.1
  rw [skipBlank, hspaces, skipComment_of_startsToken hrest htok, hbreak]
  rfl

theorem skipBlank_lineFeed (hflow : l.flowLevel = 0) (h : l.cursor.rest = '\n' :: ys) :
    skipBlank (n + 1) l = skipBlank n { l with cursor := l.cursor.newLine, keyAllowed := true } := by
  have hspaces : l.cursor.skipSpaces = l.cursor := by
    have hskip := @skipSpaces_eq l.cursor ('\n' :: ys) 0 h
    rw [shift_zero] at hskip
    refine hskip ?_
    rintro y ⟨⟩
    decide
  have hpeek : l.cursor.peek = '\n' := peek_cons h
  have hcomment : l.cursor.skipComment = l.cursor := by rw [skipComment, hpeek]; rfl
  rw [skipBlank, hspaces, hcomment, hpeek, lineBreak_of_lineFeed h, inFlow_eq hflow,
    Bool.not_false, Bool.or_true]
  rfl

theorem toNext_spaces (h : l.cursor.rest = replicate m ' ' ++ tok) (htok : StartsToken tok) :
    l.toNext = { l with cursor := l.cursor.shift m } := by
  rw [toNext_eq, skipBlank_spaces h htok]
  cases m with
  | zero => exact (peek_of_startsToken h htok).2.2.2
  | succ m =>
    rw [peek_cons (h.trans cons_append)]
    decide

theorem toNext_lineFeed (hflow : l.flowLevel = 0)
    (h : l.cursor.rest = '\n' :: (replicate m ' ' ++ tok)) (htok : StartsToken tok) :
    l.toNext = { l with cursor := l.cursor.newLine.shift m, keyAllowed := true } := by
  have hpeek : l.cursor.peek ≠ byteOrderMark := by rw [peek_cons h]; decide
  have hrest : l.cursor.newLine.rest = replicate m ' ' ++ tok := by
    rw [rest_newLine, h]
    rfl
  have hlength : l.cursor.rest.length = (replicate m ' ' ++ tok).length + 1 := by
    rw [h, length_cons]
  rw [toNext_eq hpeek, skipBlank_lineFeed hflow h, hlength]
  exact skipBlank_spaces hrest htok

/-! ## Pending keys -/

theorem dropStale_of_optional (h : ∀ e ∈ l.pending, e.2.required = false) :
    l.dropStale = .ok { l with pending := l.pending.filter fun e => !l.isStale e.2 } := by
  rw [dropStale, if_neg]
  rw [any_eq_true]
  rintro ⟨e, he, hrequired⟩
  rw [h e he, Bool.and_false] at hrequired
  cases hrequired

theorem dropStale_of_stale
    (h : ∀ e ∈ l.pending, e.2.required = false ∧ l.isStale e.2) :
    l.dropStale = .ok { l with pending := [] } := by
  have hfilter : (l.pending.filter fun e => !l.isStale e.2) = [] := by
    rw [filter_eq_nil_iff]
    intro e he
    rw [(h e he).2]
    exact Bool.false_ne_true
  rw [dropStale_of_optional fun e he => (h e he).1, hfilter]

theorem dropStale_of_fresh (h : ∀ e ∈ l.pending, l.isStale e.2 = false) : l.dropStale = .ok l := by
  have hfilter : (l.pending.filter fun e => !l.isStale e.2) = l.pending := by
    rw [filter_eq_self]
    intro e he
    rw [h e he]
    rfl
  rw [dropStale, if_neg, hfilter]
  rw [any_eq_true]
  rintro ⟨e, he, hstale⟩
  rw [h e he, Bool.false_and] at hstale
  cases hstale

theorem dropStale_of_nil (h : l.pending = []) : l.dropStale = .ok l :=
  dropStale_of_fresh (by rw [h]; simp)

theorem dropPending_of_nil (h : l.pending = []) : l.dropPending = .ok l := by
  rw [dropPending, h]
  rfl

/-! ## Blocks -/

theorem closeBlocks_of_le {bound : List Int} (h : l.indent ≤ column) :
    l.closeBlocks column bound = l := by
  cases bound with
  | nil => rfl
  | cons previous bound => rw [closeBlocks, if_neg (Int.not_lt.mpr h)]

theorem unwind_of_le (h : l.indent ≤ column) : l.unwind column = l := by
  rw [unwind, closeBlocks_of_le h, ite_self]

def closeBlock (l : Lexer) (indent : Int) (outer : List Int) : Lexer :=
  { l.pushEmpty .blockEnd with indent, outer }

theorem unwind_of_lt (hflow : l.flowLevel = 0) (houter : l.outer = indent :: outer)
    (h : column < l.indent) : l.unwind column = (l.closeBlock indent outer).unwind column := by
  have hflow' : (l.closeBlock indent outer).flowLevel = 0 := hflow
  rw [unwind, unwind, inFlow_eq hflow, inFlow_eq hflow', if_neg Bool.false_ne_true,
    if_neg Bool.false_ne_true, houter, closeBlocks, if_pos h]
  rfl

/-! ## What a state has read -/

def kindsRead (l : Lexer) : List TokenKind := l.tokens.reverse.map (·.kind)

/-- The tokens that a state has read outside brackets, and the blocks open in it. -/
structure Holds (l : Lexer) (kinds : List TokenKind) (indent : Int) (outer : List Int) : Prop where
  flow : l.flowLevel = 0
  kinds : l.kindsRead = kinds
  count : l.count = l.tokens.length
  indent : l.indent = indent
  outer : l.outer = outer

/-- A state at a token that may start a key. -/
structure Stands (l : Lexer) (kinds : List TokenKind) (indent : Int) (outer : List Int)
    (column : Nat) (rest : List Char) : Prop extends Holds l kinds indent outer where
  allowed : l.keyAllowed = true
  pending : l.pending = []
  column : l.cursor.column = column
  rest : l.cursor.rest = rest

/-- A state after a mark in a block at column `n`.  Where the mark is an entry mark
the value may be a block that starts on its line. -/
structure After (l : Lexer) (kinds : List TokenKind) (n : Nat) (outer : List Int) (entry : Bool)
    (rest : List Char) : Prop extends Holds l kinds n outer where
  allowed : l.keyAllowed = entry
  pending : l.pending = []
  column : n < l.cursor.column
  entry : entry = true → l.cursor.column = n + 1
  rest : l.cursor.rest = rest

/-- A state after a scalar, whose line is over or about to end. -/
structure Passed (l : Lexer) (kinds : List TokenKind) (indent : Int) (outer : List Int) (m : Nat)
    (tok : List Char) : Prop extends Holds l kinds indent outer where
  optional : ∀ e ∈ l.pending, e.2.required = false
  rest : (l.cursor.rest = '\n' :: (replicate m ' ' ++ tok) ∧
      ∀ e ∈ l.pending, e.2.mark.line ≤ l.cursor.line) ∨
    (l.cursor.rest = tok ∧ l.cursor.column = m ∧ l.keyAllowed = true ∧
      ∀ e ∈ l.pending, e.2.mark.line < l.cursor.line)

theorem Passed.length_le (h : Passed l kinds indent outer m tok) :
    l.cursor.rest.length ≤ ('\n' :: (replicate m ' ' ++ tok)).length := by
  obtain ⟨hrest, -⟩ | ⟨hrest, -⟩ := h.rest
  · exact Nat.le_of_eq (congrArg length hrest)
  · rw [hrest, length_cons, length_append]
    omega

theorem Passed.dropStale (h : Passed l kinds indent outer m tok) :
    ∃ l', l.dropStale = .ok l' ∧ l'.tokens = l.tokens ∧ Passed l' kinds indent outer m tok := by
  refine ⟨_, dropStale_of_optional h.optional, rfl, ⟨⟨h.flow, h.kinds, h.count, h.indent, h.outer⟩,
      fun e he => h.optional e (mem_filter.mp he).1, ?_⟩⟩
  refine h.rest.imp (fun hrest => ⟨hrest.1, fun e he => hrest.2 e (mem_filter.mp he).1⟩) ?_
  rintro ⟨hrest, hcolumn, hallowed, hline⟩
  exact ⟨hrest, hcolumn, hallowed, fun e he => hline e (mem_filter.mp he).1⟩

theorem isStale_of_line {key : PendingKey} (h : key.mark.line < l.cursor.line) : l.isStale key := by
  rw [isStale, bne_iff_ne.mpr (Nat.ne_of_lt h), Bool.true_or]

theorem Passed.reaches (hsteps : ReflTransGen Step l l') (h : Passed l' kinds indent outer m tok)
    (htok : StartsToken tok) : ∃ r, Reaches l r ∧ Stands r kinds indent outer m tok := by
  obtain ⟨hrest, hline⟩ | ⟨hrest, hcolumn, hallowed, hline⟩ := h.rest
  · have hnext := toNext_lineFeed h.flow hrest htok
    have hrest' : (l'.cursor.newLine.shift m).rest = tok := by
      refine rest_shift_spaces ?_
      rw [rest_newLine, hrest]
      rfl
    refine ⟨{ l' with cursor := l'.cursor.newLine.shift m, keyAllowed := true, pending := [] },
      reaches_of_ready hsteps ?_ ?_, ⟨⟨h.flow, h.kinds, h.count, h.indent, h.outer⟩, rfl, rfl, ?_,
        hrest'⟩⟩
    · rw [hnext]
      refine dropStale_of_stale fun e he => ⟨h.optional e he, isStale_of_line ?_⟩
      exact Nat.lt_succ_of_le (hline e he)
    · simp only [hrest', hrest, length_cons, length_append]
      omega
    · exact Nat.zero_add m
  · have hnext : l'.toNext = l' := @toNext_spaces l' 0 tok hrest htok
    refine ⟨{ l' with pending := [] }, reaches_of_ready hsteps ?_ (Nat.le_refl _),
      ⟨⟨h.flow, h.kinds, h.count, h.indent, h.outer⟩, hallowed, rfl, hcolumn, hrest⟩⟩
    rw [hnext]
    exact dropStale_of_stale fun e he => ⟨h.optional e he, isStale_of_line (hline e he)⟩

theorem After.reaches_block {entry : Bool} (hsteps : ReflTransGen Step l l')
    (h : After l' kinds n outer entry (lead entry n ++ tok)) (htok : StartsToken tok) :
    ∃ r, Reaches l r ∧ Stands r kinds n outer (n + 2) tok := by
  cases entry with
  | true =>
    have hrest : l'.cursor.rest = replicate 1 ' ' ++ tok := h.rest
    have hrest' := rest_shift_spaces hrest
    refine ⟨{ l' with cursor := l'.cursor.shift 1 }, reaches_of_ready hsteps ?_ ?_,
      ⟨⟨h.flow, h.kinds, h.count, h.indent, h.outer⟩, h.allowed, h.pending, ?_, hrest'⟩⟩
    · rw [toNext_spaces hrest htok]
      exact dropStale_of_nil h.pending
    · simp only [hrest', hrest, length_append]
      omega
    · exact congrArg (· + 1) (h.entry rfl)
  | false =>
    refine Passed.reaches hsteps ⟨⟨h.flow, h.kinds, h.count, h.indent, h.outer⟩, ?_, .inl ⟨h.rest, ?_⟩⟩
      htok <;>
    · rw [h.pending]
      simp

theorem Reaches.close {c : Nat} (h : Reaches l r) (hr : Stands r kinds c (indent :: outer) m tok)
    (hm : m < c) : ∃ r', Reaches l r' ∧ Stands r' (kinds ++ [.blockEnd]) indent outer m tok := by
  refine ⟨r.closeBlock indent outer, h.congr ?_ rfl, ⟨⟨hr.flow, ?_, ?_, rfl, rfl⟩, hr.allowed,
    hr.pending, hr.column, hr.rest⟩⟩
  · have hlt : r.column < r.indent := by
      rw [column, hr.column, hr.indent]
      exact Int.ofNat_lt.mpr hm
    rw [readToken, unwind_of_lt hr.flow hr.outer hlt]
    rfl
  · simp only [kindsRead, closeBlock, pushEmpty, push, reverse_cons, map_append, map_cons, map_nil]
    exact congrArg (· ++ [_]) hr.kinds
  · exact congrArg (· + 1) hr.count

end FlowLock.Yaml.Lexer
