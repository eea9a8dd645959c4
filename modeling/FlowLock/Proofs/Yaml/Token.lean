import FlowLock.Proofs.Yaml.Lexer
import FlowLock.Proofs.Yaml.Literal
import FlowLock.Proofs.Yaml.Quoted

/-!
# Written tokens are read

What the lexer does at each piece of written text: at the mark of an entry, at a key with
the mark of its value on one line, at a scalar in each of its forms, at an empty collection
and at the end of the document.
-/

namespace FlowLock.Yaml

open Cursor List

namespace Cursor

variable {c : Cursor} {ch x : Char} {xs ys : List Char}

theorem peekAt_one (h : c.rest = x :: ys) : c.peekAt 1 = ys.headD endChar := by
  rw [peekAt, h]
  cases ys <;> rfl

theorem atMarker_of_peek (h : c.rest = x :: xs) (hx : x ≠ ch) : c.atMarker ch = false := by
  rw [atMarker, peek_cons h, beq_eq_false_iff_ne.mpr hx, Bool.false_and, Bool.false_and,
    Bool.false_and]

theorem atMarker_of_blank (h : c.rest = x :: ys) (hys : isBlankOrEnd (ys.headD endChar))
    (hch : isBlankOrEnd ch = false) : c.atMarker ch = false := by
  have hne : (c.peekAt 1 == ch) = false := by
    rw [peekAt_one h, beq_eq_false_iff_ne]
    rintro heq
    rw [heq, hch] at hys
    cases hys
  rw [atMarker, hne, Bool.and_false, Bool.false_and, Bool.false_and]

end Cursor

namespace Lexer

open Relation (ReflTransGen)

variable {l l' r p : Lexer} {kinds added : List TokenKind} {indent : Int} {outer outer' : List Int}
  {m n : Nat} {ys tok rest written cs : List Char} {start kind : TokenKind} {plain : Bool}
  {x ch : Char} {read : Scalar.Read} {double : Bool} {close : TokenKind} {ends : List TokenKind}

/-! ## Tokens added -/

theorem kindsRead_cons {first last : Mark} (h : l.kindsRead = kinds)
    (htokens : l'.tokens = ⟨kind, first, last⟩ :: l.tokens) : l'.kindsRead = kinds ++ [kind] := by
  rw [← h, kindsRead, htokens, reverse_cons, map_append]
  rfl

theorem Holds.push {finish : Mark} {after : Cursor} (h : Holds l kinds indent outer) :
    Holds (l.push kind finish after) (kinds ++ [kind]) indent outer :=
  ⟨h.flow, kindsRead_cons h.kinds rfl, congrArg (· + 1) h.count, h.indent, h.outer⟩

theorem pushChars_one (h : l.cursor.rest = x :: ys) (hx : IsInline x) :
    l.pushChars kind 1 = l.push kind (l.cursor.shift 1).mark (l.cursor.shift 1) := by
  rw [pushChars, advance, advance, next_of_inline h hx]

theorem Stands.indent_le (h : Stands l kinds indent outer n rest) (hle : indent ≤ n) :
    l.indent ≤ l.column := by
  rw [h.indent, Lexer.column, h.column]
  exact hle

theorem readToken_of_token (hindent : l.indent ≤ l.column) (htoken : l.token = .ok l') :
    l.readToken = l'.dropStale := by
  rw [readToken, unwind_of_le hindent, htoken]
  rfl

/-! ## Blocks that open -/

/-- Whether a piece at a column is the first of its block, with the tokens that this
adds, or stands in a block that is open there. -/
inductive Opens (indent : Int) (outer : List Int) (column : Nat) (start : TokenKind) :
    List TokenKind → List Int → Prop
  | first (h : indent < column) : Opens indent outer column start [start] (indent :: outer)
  | later (h : indent = column) : Opens indent outer column start [] outer

theorem Opens.indent_le (h : Opens indent outer n start added outer') : indent ≤ n := by
  cases h <;> omega

theorem openHere_eq (cause : Problem) (h : Stands l kinds indent outer n rest)
    (hopens : Opens indent outer n start added outer') :
    ∃ l', l.openHere cause start = .ok l' ∧ Stands l' (kinds ++ added) n outer' n rest := by
  have hcolumn : l.column = n := by rw [column, h.column]; rfl
  rw [openHere, inFlow_eq h.flow, h.allowed, hcolumn]
  cases hopens with
  | first hlt =>
    have hopen : l.openBlock n = ({ l with indent := n, outer := l.indent :: l.outer }, true) :=
      if_pos (by rw [h.indent]; exact hlt)
    rw [hopen]
    refine ⟨_, rfl, ⟨⟨h.flow, kindsRead_cons h.kinds rfl, congrArg (· + 1) h.count, rfl, ?_⟩, h.allowed,
      h.pending, h.column, h.rest⟩⟩
    rw [← h.indent, ← h.outer]
    rfl
  | later heq =>
    have hopen : l.openBlock n = (l, false) := if_neg (by rw [h.indent]; omega)
    rw [hopen]
    refine ⟨l, rfl, ⟨⟨h.flow, ?_, h.count, h.indent.trans heq, h.outer⟩, h.allowed, h.pending,
      h.column, h.rest⟩⟩
    rw [append_nil, h.kinds]

/-! ## Marks of entries -/

/-- The marks that a value may follow as a block on their own line, with what starts
their blocks and their tokens. -/
inductive EntryMark : Char → TokenKind → TokenKind → Prop
  | item : EntryMark '-' .blockSequenceStart .blockEntry
  | key : EntryMark '?' .blockMappingStart .key
  | value : EntryMark ':' .blockMappingStart .value

theorem EntryMark.isInline (h : EntryMark ch start kind) :
    IsInline ch ∧ isBlankOrEnd ch = false ∧ ch ≠ '.' := by
  cases h <;> decide

theorem token_mark (hys : isBlankOrEnd (ys.headD endChar)) :
    (l.cursor.rest = '-' :: ys → l.token = l.blockEntry) ∧
      (l.cursor.rest = '?' :: ys → l.token = l.key) ∧
      (l.cursor.rest = ':' :: ys → l.token = l.value) := by
  have halone : ∀ {x}, l.cursor.rest = x :: ys → l.standsAlone := fun h => by
    rwa [standsAlone, peekAt_one h]
  refine ⟨fun h => ?_, fun h => ?_, fun h => ?_⟩
  · rw [token, peek_cons h, atMarker_of_blank h hys (by decide), atMarker_of_peek h (by decide),
      halone h, Bool.and_false]
    rfl
  all_goals
    rw [token, peek_cons h, atMarker_of_peek h (by decide), atMarker_of_peek h (by decide),
      halone h, Bool.and_false, Bool.or_true]
    rfl

theorem pushMark_eq {allowed : Bool} (hallowed : allowed) (h : l.pending = []) :
    ({ l with keyAllowed := allowed }.dropPending >>= fun l => pure (l.pushChars kind 1)) =
      .ok ({ l with keyAllowed := true }.pushChars kind 1) := by
  have hdrop := @dropPending_of_nil { l with keyAllowed := true } h
  rw [hallowed, hdrop]
  rfl

theorem token_entry (hmark : EntryMark ch start kind) (h : Stands l kinds indent outer n (ch :: ys))
    (hys : isBlankOrEnd (ys.headD endChar))
    (hopens : Opens indent outer n start added outer') :
    ∃ l', l.token = .ok ({ l' with keyAllowed := true }.pushChars kind 1) ∧
      Stands l' (kinds ++ added) n outer' n (ch :: ys) := by
  have hflow : ∀ {l' : Lexer}, Stands l' (kinds ++ added) n outer' n (ch :: ys) →
      (!l'.inFlow) := fun hl' => by rw [inFlow_eq hl'.flow]; rfl
  cases hmark with
  | item =>
    obtain ⟨l', hopen, hl'⟩ := openHere_eq .sequenceNotAllowed h hopens
    refine ⟨l', ?_, hl'⟩
    rw [(token_mark hys).1 h.rest, blockEntry, hopen]
    exact pushMark_eq rfl hl'.pending
  | key =>
    obtain ⟨l', hopen, hl'⟩ := openHere_eq .keyNotAllowed h hopens
    refine ⟨l', ?_, hl'⟩
    rw [(token_mark hys).2.1 h.rest, key, hopen]
    exact pushMark_eq (hflow hl') hl'.pending
  | value =>
    obtain ⟨l', hopen, hl'⟩ := openHere_eq .valueNotAllowed h hopens
    refine ⟨l', ?_, hl'⟩
    rw [(token_mark hys).2.2 h.rest, value, h.pending]
    simp only [lookup_nil, hopen]
    exact pushMark_eq (hflow hl') hl'.pending

theorem Reaches.entry (hreach : Reaches l r) (hmark : EntryMark ch start kind)
    (h : Stands r kinds indent outer n (ch :: ys)) (hys : isBlankOrEnd (ys.headD endChar))
    (hopens : Opens indent outer n start added outer') :
    ∃ p, ReflTransGen Step l p ∧ After p (kinds ++ added ++ [kind]) n outer' true ys := by
  obtain ⟨l', htoken, hl'⟩ := token_entry hmark h hys hopens
  have hindent := h.indent_le hopens.indent_le
  have hrest : (l'.cursor.shift 1).rest = ys := by rw [rest_shift, hl'.rest]; rfl
  rw [@pushChars_one { l' with keyAllowed := true } _ _ _ hl'.rest hmark.isInline.1] at htoken
  have hread := (readToken_of_token hindent htoken).trans (dropStale_of_nil hl'.pending)
  have hholds : Holds { l' with keyAllowed := true } (kinds ++ added) n outer' :=
    ⟨hl'.flow, hl'.kinds, hl'.count, hl'.indent, hl'.outer⟩
  refine ⟨_, hreach.step hread ?_ ?_, ⟨hholds.push, rfl, hl'.pending, ?_, fun _ => ?_, hrest⟩⟩
  · cases hmark <;> rfl
  · rw [h.rest]
    exact Nat.lt_succ_of_le (Nat.le_of_eq (congrArg length hrest))
  · exact Nat.lt_succ_of_le (Nat.le_of_eq hl'.column.symm)
  · exact congrArg (· + 1) hl'.column

/-! ## Scalars on one line -/

def keyHere (l : Lexer) : PendingKey :=
  { number := l.count, required := l.indent == l.column, mark := l.cursor.mark }

/-- The next token as a pending key, where a key may start. -/
def pendingHere (l : Lexer) : List (Int × PendingKey) :=
  if l.keyAllowed then [(0, l.keyHere)] else []

def afterScalar (l : Lexer) (plain : Bool) (read : Scalar.Read) : Lexer :=
  { l with pending := l.pendingHere, keyAllowed := read.broken }.pushScalar plain read

theorem cursor_afterScalar : (l.afterScalar plain read).cursor = read.cursor := rfl

theorem Holds.afterScalar (h : Holds l kinds indent outer) :
    Holds (l.afterScalar plain read) (kinds ++ [.scalar (String.ofList read.text) plain]) indent
      outer :=
  ⟨h.flow, kindsRead_cons h.kinds rfl, congrArg (· + 1) h.count, h.indent, h.outer⟩

theorem savePending_eq (hflow : l.flowLevel = 0) (h : l.pending = []) :
    l.savePending = .ok { l with pending := l.pendingHere } := by
  rw [savePending, pendingHere, inFlow_eq hflow, dropPending_of_nil h]
  split
  · change Except.ok { l with pending := l.pending ++ [(l.flowLevel, _)] } = _
    rw [h, hflow]
    rfl
  · rw [← h]

theorem quotedScalar_eq (hflow : l.flowLevel = 0) (h : l.pending = [])
    (hread : Scalar.quoted double l.cursor = .ok read) (hbroken : read.broken = false) :
    l.quotedScalar double = .ok (l.afterScalar false read) := by
  rw [quotedScalar, savePending_eq hflow h, afterScalar, hbroken]
  exact congrArg (· >>= fun read => pure
    ({ l with pending := l.pendingHere, keyAllowed := false }.pushScalar false read)) hread

theorem plainScalar_eq (hflow : l.flowLevel = 0) (h : l.pending = []) :
    l.plainScalar = .ok (l.afterScalar true (Scalar.plain false (l.indent + 1) l.cursor)) := by
  rw [plainScalar, savePending_eq hflow h, afterScalar, ← inFlow_eq hflow]
  rfl

/-- A text on one line that is read as a scalar, whatever ends a plain scalar after it. -/
structure ReadsAs (plain : Bool) (written cs : List Char) : Prop where
  starts : StartsToken written ∧ written ≠ []
  token : ∀ {l : Lexer} {ys : List Char} {broken : Bool} {move : Cursor → Cursor},
    l.flowLevel = 0 → l.pending = [] → l.cursor.rest = written ++ ys →
    (∀ y ∈ ys.head?, y ≠ '\'' ∧ y ≠ '-' ∧ y ≠ '.') →
    Scalar.EndsPlain (l.indent + 1) ys broken move → l.indent ≤ l.column →
    ∃ read, l.token = .ok (l.afterScalar plain read) ∧ read.text = cs ∧
      (read.broken = false ∧ read.cursor = l.cursor.shift written.length ∨
        read.broken = broken ∧ read.cursor = move (l.cursor.shift written.length))

theorem token_quoted {quote : Char} (hclose : Scalar.Closes double quote ys)
    (h : l.cursor.rest = quote :: rest) : l.token = l.quotedScalar double := by
  obtain ⟨rfl, rfl⟩ | ⟨rfl, rfl, -⟩ := hclose <;>
  · rw [token, peek_cons h, atMarker_of_peek h (by decide),
      atMarker_of_peek h (by decide), Bool.and_false]
    rfl

theorem readsAs_quoted {quote : Char} {spell : Char → List Char}
    (hspell : Scalar.Spelling double spell cs) (hquote : Scalar.Closes double quote []) :
    ReadsAs false (quote :: (cs.flatMap spell ++ [quote])) cs where
  starts := by
    refine ⟨?_, cons_ne_nil _ _⟩
    rintro y ⟨⟩
    obtain ⟨-, rfl⟩ | ⟨-, rfl, -⟩ := hquote <;> decide
  token := by
    intro l ys broken move hflow hpending hrest hys _ _
    have hclose : Scalar.Closes double quote ys :=
      hquote.imp_right fun h => ⟨h.1, h.2.1, fun y hy => (hys y hy).1⟩
    rw [cons_append, append_assoc, singleton_append] at hrest
    have hlength : (quote :: (cs.flatMap spell ++ [quote])).length =
        (cs.flatMap spell).length + 2 := by
      rw [length_cons, length_append, length_singleton]
    have hread := Scalar.quoted_eq hspell hclose hrest
    refine ⟨_, (token_quoted hclose hrest).trans (quotedScalar_eq hflow hpending hread rfl), rfl,
      .inl ⟨rfl, ?_⟩⟩
    rw [hlength]

/-- The characters that a plain scalar cannot start with, those apart that can start one
before something else than a blank. -/
def plainMarks : List Char := "#,[]\x7b\x7d&*!|>'\"%@`".toList

theorem beq_of_mem_plainMarks (hmarks : plainMarks.contains x = false) :
    ∀ c ∈ plainMarks, (x == c) = false := by
  intro c hc
  rw [beq_eq_false_iff_ne]
  rintro rfl
  rw [contains_iff_mem.mpr hc] at hmarks
  cases hmarks

theorem startsPlain_eq (hflow : l.flowLevel = 0) (h : l.cursor.rest = x :: ys)
    (hmarks : plainMarks.contains x = false) (hblank : isBlankOrEnd x = false)
    (halone : ((x == '?' || x == ':' || x == '-') && l.standsAlone) = false) :
    l.startsPlain := by
  rw [startsPlain, peek_cons h, inFlow_eq hflow, Bool.or_eq_true]
  by_cases hmark : (x == '?' || x == ':' || x == '-')
  · rw [hmark, Bool.true_and, standsAlone] at halone
    refine .inr ?_
    rw [halone, Bool.not_false, Bool.true_and, Bool.true_and, Bool.or_comm]
    exact hmark
  · refine .inl ?_
    rw [hblank, Bool.false_or, Bool.not_eq_true', ← Bool.not_eq_true, contains_iff_mem]
    intro hmem
    have hall : ∀ c ∈ "-?:,[]\x7b\x7d#&*!|>'\"%@`".toList,
        c ∈ plainMarks ∨ (c == '?' || c == ':' || c == '-') := by decide
    obtain hin | hin := hall x hmem
    · rw [contains_iff_mem.mpr hin] at hmarks
      cases hmarks
    · exact hmark hin

theorem token_plain (hflow : l.flowLevel = 0) (h : l.cursor.rest = x :: ys)
    (hmarks : plainMarks.contains x = false) (hblank : isBlankOrEnd x = false)
    (halone : ((x == '?' || x == ':' || x == '-') && l.standsAlone) = false)
    (hmarker : l.cursor.atMarker '-' = false ∧ l.cursor.atMarker '.' = false) :
    l.token = l.plainScalar := by
  have hne := beq_of_mem_plainMarks hmarks
  have hend : (x == endChar) = false := by
    simp only [isBlankOrEnd, isSpaceOrEnd, isBreakOrEnd, Bool.or_eq_false_iff] at hblank
    exact hblank.2.2.1
  have hstarts := startsPlain_eq hflow h hmarks hblank halone
  simp only [Bool.and_or_distrib_right, Bool.or_eq_false_iff] at halone
  rw [token, peek_cons h, hend, hmarker.1, hmarker.2, inFlow_eq hflow, Bool.false_or,
    halone.1.1, halone.1.2, halone.2, hne '%' (by decide), hne '[' (by decide),
    hne '\x7b' (by decide), hne ']' (by decide), hne '\x7d' (by decide), hne ',' (by decide),
    hne '*' (by decide), hne '&' (by decide), hne '!' (by decide), hne '|' (by decide),
    hne '>' (by decide), hne '\'' (by decide), hne '"' (by decide), hstarts, Bool.and_false]
  rfl

theorem readsAs_plain (hcs : Scalar.PlainText cs) : ReadsAs true cs cs := by
  obtain ⟨x, xs, rfl⟩ := exists_cons_of_ne_nil hcs.ne_nil
  have hspace : x ≠ ' ' := fun hx => hcs.first (congrArg some hx)
  have hindicator := (Analysis.hasIndicator_cons hcs.indicator).1
  have hhash := Scalar.hash_of_isIndicator (.inl rfl) hindicator
  obtain ⟨hinline, hblank⟩ := hcs.chars x mem_cons_self
  rw [Analysis.isIndicator, Bool.or_eq_false_iff] at hindicator
  refine ⟨⟨?_, cons_ne_nil _ _⟩, ?_⟩
  · rintro y ⟨⟩
    exact ⟨hspace, hhash, hinline⟩
  · intro l ys broken move hflow hpending hrest hys hends hindent
    have halone : ((x == '?' || x == ':' || x == '-') && l.standsAlone) = false := by
      rw [standsAlone, Cursor.peekAt_one (hrest.trans cons_append)]
      cases xs with
      | nil =>
        have hmark := hindicator.2
        rw [headD_nil, Bool.and_eq_false_iff] at hmark
        rw [hmark.resolve_right (by decide), Bool.false_and]
      | cons y xs => exact hindicator.2
    have hmarker := fun ch hch => @Scalar.PlainText.atMarker _ _ _ ch hcs hch hrest
    have htoken := token_plain hflow (hrest.trans cons_append) hindicator.1 (hblank hspace)
      halone ⟨hmarker '-' (.inl rfl) fun y hy => (hys y hy).2.1,
        hmarker '.' (.inr rfl) fun y hy => (hys y hy).2.2⟩
    obtain ⟨finish, hread⟩ := Scalar.plain_eq hends hcs.chars hspace hcs.last hcs.indicator hrest
      (Int.add_le_add_right hindent 1)
    refine ⟨_, htoken.trans (plainScalar_eq hflow hpending), ?_, .inr ?_⟩
    · rw [hread]
    · rw [hread]
      exact ⟨rfl, rfl⟩

/-- A state at a value on the line of its mark. -/
structure Within (l : Lexer) (kinds : List TokenKind) (indent : Int) (outer : List Int)
    (rest : List Char) : Prop extends Holds l kinds indent outer where
  pending : l.pending = []
  inside : l.indent < l.column
  rest : l.cursor.rest = rest

theorem After.reaches_within {entry : Bool} (hsteps : ReflTransGen Step l p)
    (h : After p kinds n outer entry (' ' :: rest)) (hrest : StartsToken rest) :
    ∃ r, Reaches l r ∧ Within r kinds n outer rest := by
  have hshift : (p.cursor.shift 1).rest = rest := by rw [rest_shift, h.rest]; rfl
  have hready : p.toNext.dropStale = .ok { p with cursor := p.cursor.shift 1 } := by
    rw [@toNext_spaces p 1 rest h.rest hrest]
    exact dropStale_of_nil h.pending
  have hinside : p.indent < Int.ofNat (p.cursor.column + 1) := by
    rw [h.indent]
    exact Int.ofNat_lt.mpr (Nat.lt_succ_of_lt h.column)
  refine ⟨_, reaches_of_ready hsteps hready ?_,
    ⟨⟨h.flow, h.kinds, h.count, h.indent, h.outer⟩, h.pending, hinside, hshift⟩⟩
  simp only [hshift, h.rest, length_cons]
  omega

/-- Outside the column of its block a token is never a key that must be one. -/
theorem Within.optional (h : Within l kinds indent outer rest) :
    ∀ e ∈ l.pendingHere, e.2.required = false ∧ e.2.mark.line = l.cursor.line ∧ e.1 = 0 := by
  intro e he
  rw [pendingHere] at he
  split at he
  · rw [mem_singleton.mp he]
    exact ⟨beq_eq_false_iff_ne.mpr (Int.ne_of_lt h.inside), rfl, rfl⟩
  · cases he

theorem Within.scalar (hreads : ReadsAs plain written cs)
    (h : Within l kinds n outer (written ++ '\n' :: (List.replicate m ' ' ++ tok)))
    (hm : m ≤ n) (htok : StartsToken tok) :
    ∃ l', l.readToken = .ok l' ∧ l'.isDone = false ∧ l'.cursor.rest.length < l.cursor.rest.length ∧
      Passed l' (kinds ++ [.scalar (String.ofList cs) plain]) n outer m tok := by
  have hends : Scalar.EndsPlain (l.indent + 1) ('\n' :: (List.replicate m ' ' ++ tok)) true
      fun c => c.newLine.shift m := by
    refine Scalar.endsPlain_lineFeed htok ?_
    rw [h.indent]
    exact Int.lt_add_one_of_le (Int.ofNat_le.mpr hm)
  obtain ⟨read, htoken, rfl, hread⟩ := hreads.token h.flow h.pending h.rest
    (by rintro y ⟨⟩; decide) hends (Int.le_of_lt h.inside)
  have hshift := rest_shift_length h.rest
  have hpassed : Passed (l.afterScalar plain read)
      (kinds ++ [.scalar (String.ofList read.text) plain]) n outer m tok := by
    refine ⟨h.toHolds.afterScalar, fun e he => (h.optional e he).1, ?_⟩
    obtain ⟨-, hcursor⟩ | ⟨hbroken, hcursor⟩ := hread
    · refine .inl ?_
      rw [cursor_afterScalar, hcursor]
      exact ⟨hshift, fun e he => Nat.le_of_eq (h.optional e he).2.1⟩
    · refine .inr ?_
      rw [cursor_afterScalar, hcursor]
      refine ⟨?_, ?_, hbroken, fun e he => ?_⟩
      · refine rest_shift_spaces ?_
        rw [rest_newLine, hshift]
        rfl
      · exact Nat.zero_add m
      · exact Nat.lt_succ_of_le (Nat.le_of_eq (h.optional e he).2.1)
  obtain ⟨l', hdrop, htokens, hl'⟩ := hpassed.dropStale
  refine ⟨l', (readToken_of_token (Int.le_of_lt h.inside) htoken).trans hdrop, ?_, ?_, hl'⟩
  · rw [isDone, htokens]
    rfl
  · have hne := length_pos_of_ne_nil hreads.starts.2
    have hle := hl'.length_le
    rw [h.rest, length_append]
    omega

/-! ## Literal blocks -/

theorem token_literal (hflow : l.flowLevel = 0) (h : l.cursor.rest = '|' :: ys) :
    l.token = l.blockScalar false := by
  rw [token, Cursor.peek_cons h, Cursor.atMarker_of_peek h (by decide),
    Cursor.atMarker_of_peek h (by decide), inFlow_eq hflow, Bool.and_false]
  rfl

theorem Within.literal (hne : cs ≠ []) (hcs : ∀ x ∈ cs, x ≠ '\n' → Scalar.IsPlainChar x)
    (h : Within l kinds n outer ('|' :: ((Sheet.literalHints cs).toList ++
      '\n' :: (Scalar.literalText (n + 2) true cs ++ (List.replicate m ' ' ++ tok)))))
    (hm : m ≤ n) (htok : StartsToken tok) :
    ∃ l', l.readToken = .ok l' ∧ l'.isDone = false ∧ l'.cursor.rest.length < l.cursor.rest.length ∧
      Passed l' (kinds ++ [.scalar (String.ofList cs) false]) n outer m tok := by
  obtain ⟨finish, c, hrest, hcolumn, hblock⟩ := Scalar.block_eq hne hcs h.rest hm htok
  obtain ⟨s, htoken, hmore, hpending, hcursor, hpassed⟩ : ∃ s, l.token = .ok s ∧
      s.isDone = false ∧ s.pending = l.pending ∧ s.cursor = c ∧
      Passed s (kinds ++ [.scalar (String.ofList cs) false]) n outer m tok := by
    refine ⟨{ l with keyAllowed := true }.pushScalar false
        { text := cs, finish, broken := false, cursor := c }, ?_, rfl, rfl, rfl,
      ⟨h.flow, kindsRead_cons h.kinds rfl, congrArg (· + 1) h.count, h.indent, h.outer⟩, ?_,
      .inr ⟨hrest, hcolumn, rfl, ?_⟩⟩
    · have hdrop := @dropPending_of_nil { l with keyAllowed := true } h.pending
      rw [← h.indent] at hblock
      rw [token_literal h.flow h.rest, blockScalar, hdrop]
      exact congrArg (· >>= fun read =>
        pure ({ l with keyAllowed := true }.pushScalar false read)) hblock
    all_goals
      change ∀ e ∈ l.pending, _
      rw [h.pending]
      simp
  refine ⟨s, (readToken_of_token (Int.le_of_lt h.inside) htoken).trans
    (dropStale_of_nil (hpending.trans h.pending)), hmore, ?_, hpassed⟩
  simp only [hcursor, hrest, h.rest, length_cons, length_append]
  omega

/-! ## Empty collections -/

inductive Brackets : Char → Char → TokenKind → TokenKind → Prop
  | list : Brackets '[' ']' .flowSequenceStart .flowSequenceEnd
  | map : Brackets '\x7b' '\x7d' .flowMappingStart .flowMappingEnd

/-- A state between the brackets of an empty collection. -/
structure Between (l : Lexer) (kinds : List TokenKind) (indent : Int) (outer : List Int)
    (rest : List Char) : Prop where
  flow : l.flowLevel = 1
  kinds : l.kindsRead = kinds
  count : l.count = l.tokens.length
  indent : l.indent = indent
  outer : l.outer = outer
  pending : ∀ e ∈ l.pending, e.2.required = false ∧ e.2.mark.line = l.cursor.line ∧ e.1 = 0
  rest : l.cursor.rest = rest

theorem Between.dropStale (h : Between l kinds indent outer rest) :
    ∃ l', l.dropStale = .ok l' ∧ l'.tokens = l.tokens ∧ Between l' kinds indent outer rest := by
  refine ⟨_, dropStale_of_optional fun e he => (h.pending e he).1, rfl,
    ⟨h.flow, h.kinds, h.count, h.indent, h.outer, fun e he => ?_, h.rest⟩⟩
  exact h.pending e (mem_filter.mp he).1

section Empty

variable {left right : Char} (hbr : Brackets left right start close)

include hbr

theorem token_bracket : (l.cursor.rest = left :: ys → l.token = l.flowStart start) ∧
    (l.cursor.rest = right :: ys → l.token = l.flowEnd close) := by
  cases hbr <;> constructor <;>
  · intro h
    rw [token, Cursor.peek_cons h, Cursor.atMarker_of_peek h (by decide),
      Cursor.atMarker_of_peek h (by decide), Bool.and_false]
    rfl

theorem Within.opening (h : Within l kinds indent outer (left :: right :: ys)) :
    ∃ l', l.readToken = .ok l' ∧ l'.isDone = false ∧
      Between l' (kinds ++ [start]) indent outer (right :: ys) := by
  have hinline : IsInline left := by cases hbr <;> decide
  obtain ⟨s, htoken, hmore, hs⟩ : ∃ s, l.token = .ok s ∧ s.isDone = false ∧
      Between s (kinds ++ [start]) indent outer (right :: ys) := by
    refine ⟨{ { l with pending := l.pendingHere }.push start (l.cursor.shift 1).mark
      (l.cursor.shift 1) with flowLevel := l.flowLevel + 1, keyAllowed := true }, ?_, ?_,
      congrArg (· + 1) h.flow, kindsRead_cons h.kinds rfl, congrArg (· + 1) h.count, h.indent,
      h.outer, h.optional, ?_⟩
    · rw [(token_bracket hbr).1 h.rest, flowStart, savePending_eq h.flow h.pending]
      exact congrArg (fun l' : Lexer => Except.ok
        { l' with flowLevel := l.flowLevel + 1, keyAllowed := true })
        (@pushChars_one { l with pending := l.pendingHere } _ _ _ h.rest hinline)
    · cases hbr <;> rfl
    · rw [← @rest_shift_length _ [left] (right :: ys) h.rest]
      rfl
  obtain ⟨l', hdrop, htokens, hl'⟩ := hs.dropStale
  refine ⟨l', (readToken_of_token (Int.le_of_lt h.inside) htoken).trans hdrop, ?_, hl'⟩
  rwa [isDone, htokens]

theorem Between.closing
    (h : Between l kinds indent outer (right :: '\n' :: (List.replicate m ' ' ++ tok))) :
    ∃ l', l.readToken = .ok l' ∧ l'.isDone = false ∧
      Passed l' (kinds ++ [close]) indent outer m tok := by
  have hinline : IsInline right := by cases hbr <;> decide
  have hflow : l.inFlow := by rw [inFlow, h.flow]; rfl
  have hdrop : l.dropPending = .ok l := by
    have hlookup : l.pending.lookup l.flowLevel = none := by
      rw [List.lookup_eq_none_iff, h.flow]
      intro e he
      rw [(h.pending e he).2.2]
      rfl
    rw [dropPending, hlookup]
  obtain ⟨s, htoken, hmore, hs⟩ : ∃ s, l.token = .ok s ∧ s.isDone = false ∧
      Passed s (kinds ++ [close]) indent outer m tok := by
    refine ⟨{ l.push close (l.cursor.shift 1).mark (l.cursor.shift 1) with
      flowLevel := l.flowLevel - 1, keyAllowed := false }, ?_, ?_,
      ⟨congrArg (· - 1) h.flow, kindsRead_cons h.kinds rfl, congrArg (· + 1) h.count, h.indent,
        h.outer⟩, fun e he => (h.pending e he).1, .inl ⟨?_, fun e he => ?_⟩⟩
    · rw [(token_bracket hbr).2 h.rest, flowEnd, hdrop, ← pushChars_one h.rest hinline]
      rfl
    · cases hbr <;> rfl
    · rw [← @rest_shift_length _ [right] _ h.rest]
      rfl
    · exact Nat.le_of_eq (h.pending e he).2.1
  obtain ⟨l', hstale, htokens, hl'⟩ := hs.dropStale
  refine ⟨l', ?_, by rwa [isDone, htokens], hl'⟩
  rw [readToken, unwind, hflow, if_pos rfl, htoken]
  exact hstale

theorem Within.empty (hreach : Reaches l r) (h : Within r kinds indent outer
      (left :: right :: '\n' :: (List.replicate m ' ' ++ tok))) :
    ∃ p, ReflTransGen Step l p ∧ Passed p (kinds ++ [start, close]) indent outer m tok := by
  have hstart : StartsToken (right :: '\n' :: (List.replicate m ' ' ++ tok)) := by
    rintro y ⟨⟩
    cases hbr <;> decide
  obtain ⟨l₁, hread, hmore, hl₁⟩ := h.opening hbr
  have hsteps : ReflTransGen Step l l₁ := by
    refine hreach.step hread hmore ?_
    rw [hl₁.rest, h.rest]
    exact Nat.lt_succ_self _
  have hnext : l₁.toNext = l₁ := @toNext_spaces _ 0 _ hl₁.rest hstart
  obtain ⟨l₂, hdrop, -, hl₂⟩ := hl₁.dropStale
  have hreach₂ : Reaches l l₂ :=
    reaches_of_ready hsteps ((congrArg Lexer.dropStale hnext).trans hdrop)
      (Nat.le_of_eq (by rw [hl₁.rest, hl₂.rest]))
  obtain ⟨p, hread₂, hmore₂, hp⟩ := hl₂.closing hbr
  refine ⟨p, hreach₂.step hread₂ hmore₂ ?_, by rwa [append_assoc] at hp⟩
  rw [hl₂.rest]
  exact Nat.lt_succ_of_le hp.length_le

end Empty

/-! ## The end of the document -/

inductive RootBlock : Int → List Int → List TokenKind → Prop
  | mapping : RootBlock 0 [-1] [.blockEnd]
  | none : RootBlock (-1) [] []

theorem endBlocks_eq (hroot : RootBlock indent outer ends)
    (h : Stands l kinds indent outer n rest) :
    ∃ l', l.endBlocks = .ok l' ∧ Holds l' (kinds ++ ends) (-1) [] ∧ l'.pending = [] ∧
      l'.cursor = l.cursor := by
  cases hroot with
  | mapping =>
    have hunwind : l.unwind (-1) = l.closeBlock (-1) [] := by
      rw [unwind_of_lt h.flow h.outer (by rw [h.indent]; decide)]
      exact unwind_of_le (Int.le_refl _)
    refine ⟨{ l.closeBlock (-1) [] with keyAllowed := false }, ?_,
      ⟨h.flow, kindsRead_cons h.kinds rfl, congrArg (· + 1) h.count, rfl, rfl⟩, h.pending, rfl⟩
    have hdrop : (l.closeBlock (-1) []).dropPending = .ok (l.closeBlock (-1) []) :=
      dropPending_of_nil h.pending
    rw [endBlocks, hunwind, hdrop]
    rfl
  | none =>
    refine ⟨{ l with keyAllowed := false }, ?_,
      ⟨h.flow, ?_, h.count, h.indent, h.outer⟩, h.pending, rfl⟩
    · rw [endBlocks, unwind_of_le (Int.le_of_eq h.indent), dropPending_of_nil h.pending]
      rfl
    · rw [append_nil]
      exact h.kinds

theorem RootBlock.indent_le (hroot : RootBlock indent outer ends) : indent ≤ 0 := by
  cases hroot <;> decide

theorem Stands.streamEnd (h : Stands l kinds indent outer 0 [])
    (hroot : RootBlock indent outer ends) :
    ∃ l', l.readToken = .ok l' ∧ l'.isDone ∧ l'.kindsRead = kinds ++ ends ++ [.streamEnd] := by
  obtain ⟨l', hends, hl', -⟩ := endBlocks_eq hroot h
  have hindent := h.indent_le hroot.indent_le
  have htoken : l.token = .ok { l'.pushEmpty .streamEnd with pending := [] } := by
    rw [token, Cursor.peek_nil h.rest, Lexer.streamEnd, hends]
    rfl
  exact ⟨_, (readToken_of_token hindent htoken).trans (dropStale_of_nil rfl), rfl,
    kindsRead_cons hl'.kinds rfl⟩

theorem token_documentEnd (hcolumn : l.cursor.column = 0)
    (h : l.cursor.rest = ['.', '.', '.', '\n']) : l.token = l.marker .documentEnd := by
  have hmarker : l.cursor.atMarker '.' := by
    rw [Cursor.atMarker, Cursor.peek_cons h, Cursor.peekAt, Cursor.peekAt, Cursor.peekAt, h]
    rfl
  rw [token, Cursor.peek_cons h, Cursor.atMarker_of_peek h (by decide), hmarker, hcolumn]
  rfl

theorem Reaches.documentEnd (hreach : Reaches l r)
    (h : Stands r kinds indent outer 0 ['.', '.', '.', '\n']) (hroot : RootBlock indent outer ends)
    : ∃ r', Reaches l r' ∧ Stands r' (kinds ++ ends ++ [.documentEnd]) (-1) [] 0 [] := by
  obtain ⟨l', hends, hl', hpending, hcursor⟩ := endBlocks_eq hroot h
  have hindent := h.indent_le hroot.indent_le
  have hrest : l'.cursor.rest = ['.', '.', '.'] ++ ['\n'] := by rw [hcursor, h.rest]; rfl
  have htoken : r.token =
      .ok (l'.push .documentEnd (l'.cursor.shift 3).mark (l'.cursor.shift 3)) := by
    have hadvance : l'.cursor.advance 3 = l'.cursor.shift 3 := advance_of_inline hrest (by decide)
    rw [token_documentEnd h.column h.rest, marker, hends, ← hadvance]
    rfl
  have hsteps := hreach.step
    ((readToken_of_token hindent htoken).trans (dropStale_of_nil hpending)) rfl
    (by
      change ((l'.cursor.shift 3).rest).length < _
      rw [rest_shift, hrest, h.rest]
      decide)
  refine Passed.reaches hsteps ⟨hl'.push, ?_, .inl ⟨?_, ?_⟩⟩ (by simp [StartsToken])
  · change ∀ e ∈ l'.pending, _
    rw [hpending]
    simp
  · change (l'.cursor.shift 3).rest = _
    rw [rest_shift, hrest]
    rfl
  · change ∀ e ∈ l'.pending, _
    rw [hpending]
    simp

/-! ## Keys with their values on one line -/

theorem insertIdx_append {α : Type} (xs ys : List α) (y : α) :
    (xs ++ ys).insertIdx xs.length y = xs ++ y :: ys := by
  induction xs with
  | nil => exact insertIdx_zero
  | cons x xs ih => rw [cons_append, length_cons, insertIdx_succ_cons, ih]; rfl

theorem insertAt_eq {before after : List Token} {number : Nat} {mark : Mark}
    (htokens : l.tokens = after ++ before) (hcount : l.count = after.length + number) :
    l.insertAt number kind mark =
      { l with tokens := after ++ ⟨kind, mark, mark⟩ :: before, count := l.count + 1 } := by
  rw [insertAt, htokens, hcount, Nat.add_sub_cancel, insertIdx_append]

theorem makeKey_of_mark {key : PendingKey} {marked : Lexer}
    (hpending : (l.pending.filter fun e => e.1 != l.flowLevel) = [])
    (hmarked : { l with pending := [] }.insertAt key.number .key key.mark = marked)
    (hflow : marked.flowLevel = 0) :
    l.makeKey key =
      if marked.indent < key.mark.column then
        { { marked with indent := key.mark.column, outer := marked.indent :: marked.outer }.insertAt
          key.number .blockMappingStart key.mark with keyAllowed := false }
      else { marked with keyAllowed := false } := by
  rw [makeKey]
  dsimp only
  rw [hpending, hmarked, inFlow_eq hflow, if_neg Bool.false_ne_true, openBlock, Int.ofNat_eq_natCast]
  split <;> rfl

theorem exists_last_token (h : l.kindsRead = kinds ++ [kind]) :
    ∃ last before, l.tokens = last :: before ∧ last.kind = kind ∧
      before.reverse.map (·.kind) = kinds := by
  rw [kindsRead] at h
  cases htokens : l.tokens with
  | nil =>
    rw [htokens] at h
    exact absurd h (by simp)
  | cons last before =>
    rw [htokens, reverse_cons, map_append] at h
    obtain ⟨hbefore, hlast⟩ := append_inj' h rfl
    exact ⟨last, before, rfl, (List.cons.inj hlast).1, hbefore⟩

theorem Holds.makeKey {key : PendingKey} (h : Holds l (kinds ++ [kind]) indent outer)
    (hpending : l.pending = [(0, key)]) (hnumber : key.number + 1 = l.count)
    (hopens : Opens indent outer key.mark.column .blockMappingStart added outer') :
    Holds (l.makeKey key) (kinds ++ added ++ [.key, kind]) key.mark.column outer' ∧
      (l.makeKey key).pending = [] ∧ (l.makeKey key).keyAllowed = false ∧
      (l.makeKey key).cursor = l.cursor := by
  obtain ⟨last, before, htokens, rfl, rfl⟩ := exists_last_token h.kinds
  have hcount : key.number = before.length := by
    have hlength := h.count
    rw [htokens, length_cons] at hlength
    omega
  have hfilter : (l.pending.filter fun e => e.1 != l.flowLevel) = [] := by
    rw [hpending, h.flow]
    rfl
  have hmarked : { l with pending := [] }.insertAt key.number .key key.mark = { l with
      tokens := last :: ⟨.key, key.mark, key.mark⟩ :: before, count := l.count + 1
      pending := [] } := by
    refine @insertAt_eq { l with pending := [] } .key before [last] _ _ htokens ?_
    exact hnumber.symm.trans (Nat.add_comm _ _)
  rw [makeKey_of_mark hfilter hmarked h.flow]
  cases hopens with
  | first hlt =>
    rw [if_pos (by rw [h.indent]; exact hlt),
      @insertAt_eq _ _ before [last, ⟨.key, key.mark, key.mark⟩] _ _ rfl]
    · refine ⟨⟨h.flow, ?_, ?_, rfl, ?_⟩, rfl, rfl, rfl⟩
      · simp only [kindsRead, cons_append, nil_append, reverse_cons,
          map_append, map_cons, map_nil, append_assoc]
      · simp only [length_append, length_cons, length_nil]
        omega
      · rw [← h.indent, ← h.outer]
    · simp only [length_cons, length_nil]
      omega
  | later heq =>
    rw [if_neg (by change ¬ l.indent < _; rw [h.indent]; omega)]
    refine ⟨⟨h.flow, ?_, ?_, h.indent.trans heq, h.outer⟩, rfl, rfl, rfl⟩
    · simp only [kindsRead, reverse_cons, map_append, map_cons, map_nil,
        append_assoc, append_nil, cons_append, nil_append]
    · simp only [length_cons]
      omega

theorem isStale_keyHere {k : Nat} (hcursor : l'.cursor = l.cursor.shift k) :
    l'.isStale l.keyHere = decide (1024 < k) := by
  rw [isStale, hcursor]
  change (l.cursor.line != l.cursor.line || decide (1024 < l.cursor.index + k - l.cursor.index)) = _
  rw [bne_self_eq_false, Bool.false_or, Nat.add_sub_cancel_left]

/-- A state after a scalar that was read at another one and may be a key: the mark of a value
comes next. -/
structure Pends (r l : Lexer) (kinds : List TokenKind) (indent : Int) (outer : List Int)
    (width : Nat) (rest : List Char) : Prop extends Holds l kinds indent outer where
  pending : l.pending = [(0, r.keyHere)]
  notAllowed : l.keyAllowed = false
  number : r.count + 1 = l.count
  cursor : l.cursor = r.cursor.shift width
  rest : l.cursor.rest = ':' :: rest
  inside : l.indent ≤ l.column

theorem Stands.pends (hreads : ReadsAs plain written cs)
    (h : Stands r kinds indent outer n (written ++ ':' :: ys))
    (hys : isBlankOrEnd (ys.headD endChar)) (hindent : r.indent ≤ r.column) :
    ∃ s, r.readToken = s.dropStale ∧ s.isDone = false ∧
      s.cursor.rest.length < r.cursor.rest.length ∧
      Pends r s (kinds ++ [.scalar (String.ofList cs) plain]) indent outer written.length ys := by
  obtain ⟨read, htoken, rfl, hread⟩ := hreads.token h.flow h.pending h.rest
    (by rintro y ⟨⟩; decide) (Scalar.endsPlain_colon (r.indent + 1) hys) hindent
  obtain ⟨hbroken, hcursor⟩ :
      read.broken = false ∧ read.cursor = r.cursor.shift written.length := or_self_iff.mp hread
  have hrest : (r.afterScalar plain read).cursor.rest = ':' :: ys := by
    rw [cursor_afterScalar, hcursor, rest_shift_length h.rest]
  refine ⟨_, readToken_of_token hindent htoken, rfl, ?_, h.toHolds.afterScalar, if_pos h.allowed,
    hbroken, rfl, hcursor, hrest, Int.le_trans hindent ?_⟩
  · have hne := length_pos_of_ne_nil hreads.starts.2
    rw [hrest, h.rest, length_append]
    omega
  · rw [Lexer.column, Lexer.column, cursor_afterScalar, hcursor]
    exact Int.ofNat_le.mpr (Nat.le_add_right _ _)

/-- A key on one line with the mark of its value is passed together with it. -/
theorem Reaches.simpleKey (hreach : Reaches l r) (hreads : ReadsAs plain written cs)
    (h : Stands r kinds indent outer n (written ++ ':' :: ys))
    (hys : isBlankOrEnd (ys.headD endChar)) (hwritten : written.length ≤ 1024)
    (hopens : Opens indent outer n .blockMappingStart added outer') :
    ∃ p, ReflTransGen Step l p ∧
      After p (kinds ++ added ++ [.key, .scalar (String.ofList cs) plain, .value]) n outer' false
        ys := by
  obtain ⟨s, hread, hmore, hshorter, hs⟩ := h.pends hreads hys (h.indent_le hopens.indent_le)
  have hdrop : s.dropStale = .ok s := by
    refine dropStale_of_fresh fun e he => ?_
    rw [hs.pending] at he
    rw [mem_singleton.mp he, isStale_keyHere hs.cursor]
    exact decide_eq_false (Nat.not_lt.mpr hwritten)
  have hnext : s.toNext = s := @toNext_spaces _ 0 _ hs.rest (by rintro y ⟨⟩; decide)
  have hreach : Reaches l s := reaches_of_ready (hreach.step (hread.trans hdrop) hmore hshorter)
    ((congrArg Lexer.dropStale hnext).trans hdrop) (Nat.le_refl _)
  obtain ⟨hmade, hnone, hallowed, hsame⟩ :=
    hs.toHolds.makeKey hs.pending hs.number (by rwa [← h.column] at hopens)
  have htoken : s.token = .ok ((s.makeKey r.keyHere).pushChars .value 1) := by
    rw [(token_mark hys).2.2 hs.rest, value, hs.pending, hs.flow]
    rfl
  have hrest := hs.rest
  rw [← hsame] at hrest
  rw [pushChars_one hrest (by decide)] at htoken
  have hread := (readToken_of_token hs.inside htoken).trans (dropStale_of_nil hnone)
  have hrest' : ((s.makeKey r.keyHere).cursor.shift 1).rest = ys := by
    rw [rest_shift, hrest]
    rfl
  have hcolumn : n < (s.makeKey r.keyHere).cursor.column + 1 := by
    rw [hsame, hs.cursor, column_shift, h.column]
    omega
  refine ⟨_, hreach.step hread rfl ?_, ⟨?_, hallowed, hnone, hcolumn, fun hentry => ?_, hrest'⟩⟩
  · rw [← hsame, hrest]
    exact Nat.lt_succ_of_le (Nat.le_of_eq (congrArg List.length hrest'))
  · have hpushed := @Holds.push _ _ _ _ .value ((s.makeKey r.keyHere).cursor.shift 1).mark
      ((s.makeKey r.keyHere).cursor.shift 1) hmade
    rw [append_assoc] at hpushed
    rw [← h.column]
    exact hpushed
  · cases hentry

end Lexer

end FlowLock.Yaml
