import FlowLock.Proofs.Text.Digit
import FlowLock.Proofs.Yaml.Cursor
import FlowLock.Yaml.Token.Scalar
import FlowLock.Yaml.Writer.Sheet

/-!
# Quoted scalars read back

A quoted scalar is read in words and gaps: a word ends at a blank, a gap is a run of
blanks.  Between the quotes each character of the text is spelled by itself, so that it
is enough to know of each spelling that a word reads it as its character.
-/

namespace FlowLock.Yaml.Scalar

open Cursor List Text Bool

variable {double : Bool} {quote : Char} {c : Cursor} {text cs ys : List Char} {n : Nat}
  {x ch : Char} {xs ds : List Char} {letter : Char}

/-! ## Words -/

/-- Whether a character between quotes stands for itself in both styles. -/
def isOrdinary (ch : Char) : Bool := !(ch == '\'' || ch == '"' || ch == '\\' || isBlankOrEnd ch)

/-- A round of reading a word once its ordinary characters are passed. -/
def wordRound (double : Bool) (n : Nat) (c : Cursor) (text : List Char) :
    Except Failure (List Char × Cursor) :=
  let ch := c.peek
  if !double && ch == '\'' && c.peekAt 1 == '\'' then
    quotedWord double n (c.advance 2) (text ++ ['\''])
  else if (double && ch == '\'') || (!double && (ch == '"' || ch == '\\')) then
    quotedWord double n c.next (text ++ [ch])
  else if double && ch == '\\' then do
    let (more, c) ← escaped c.next
    quotedWord double n c (text ++ more)
  else .ok (text, c)

theorem quotedWord_succ (double : Bool) (n : Nat) (c : Cursor) (text : List Char) :
    quotedWord double (n + 1) c text =
      wordRound double n (c.advance (c.run isOrdinary).length) (text ++ c.run isOrdinary) := rfl

theorem quotedWord_of_head (h : c.rest = x :: ys) (hx : isOrdinary x = false) :
    quotedWord double (n + 1) c text = wordRound double n c text := by
  have hrun : c.run isOrdinary = [] := by
    rw [run, h, takeWhile_cons_of_neg (by rw [hx]; exact false_ne_true)]
  rw [quotedWord_succ, hrun, append_nil]
  rfl

theorem quotedWord_cons (h : c.rest = x :: ys) (hx : isOrdinary x) (hinline : IsInline x) :
    quotedWord double (n + 1) c text = quotedWord double (n + 1) (c.shift 1) (text ++ [x]) := by
  have hrest : (c.shift 1).rest = ys := by rw [rest_shift, h]; rfl
  have hrun : c.run isOrdinary = x :: (c.shift 1).run isOrdinary := by
    rw [run, run, h, hrest, takeWhile_cons_of_pos hx]
  rw [quotedWord_succ, quotedWord_succ, hrun, length_cons, advance,
    next_of_inline h hinline, append_assoc, singleton_append]

/-! ## Spellings -/

structure Spells (double : Bool) (piece : List Char) (ch : Char) : Prop where
  inline : ∀ x ∈ piece, IsInline x
  head : ∃ x xs, piece = x :: xs ∧ isBlankOrEnd x = false
  read : ∀ {n c text ys}, c.rest = piece ++ ys → c.rest.length < n → ∃ m, ys.length < m ∧
      quotedWord double n c text = quotedWord double m (c.shift piece.length) (text ++ [ch])

theorem spells_ordinary (double : Bool) (hx : isOrdinary x) (hinline : IsInline x) :
    Spells double [x] x where
  inline := fun y hy => by rwa [mem_singleton.mp hy]
  head := by
    refine ⟨x, [], rfl, ?_⟩
    rw [isOrdinary, not_eq_true', or_eq_false_iff] at hx
    exact hx.2
  read := by
    intro n c text ys h hn
    rw [h, length_append, length_singleton] at hn
    rcases n with _ | m
    · cases hn
    exact ⟨m + 1, by omega, quotedWord_cons h hx hinline⟩

theorem spells_of_round (hinline : ∀ y ∈ x :: xs, IsInline y) (hx : isOrdinary x = false)
    (hblank : isBlankOrEnd x = false)
    (hround : ∀ {n c text ys}, c.rest = x :: xs ++ ys → wordRound double n c text =
        quotedWord double n (c.shift (x :: xs).length) (text ++ [ch])) :
    Spells double (x :: xs) ch where
  inline := hinline
  head := ⟨x, xs, rfl, hblank⟩
  read := by
    intro n c text ys h hn
    rw [h, length_append, length_cons] at hn
    rcases n with _ | m
    · cases hn
    refine ⟨m, by omega, ?_⟩
    rw [quotedWord_of_head (h.trans cons_append) hx, hround h]

/-! ## Gaps and words -/

/-- Where a quoted scalar ends: at the quote, which in single quotes is not doubled. -/
def Closes (double : Bool) (quote : Char) (ys : List Char) : Prop :=
  (double = true ∧ quote = '"') ∨ (double = false ∧ quote = '\'' ∧ ∀ y ∈ ys.head?, y ≠ '\'')

theorem Closes.quote_ne (h : Closes double quote ys) :
    quote ≠ ' ' ∧ isBlankOrEnd quote = false ∧ IsInline quote := by
  obtain ⟨-, rfl⟩ | ⟨-, rfl, -⟩ := h <;> decide

theorem quotedWord_at_space (h : c.rest = ' ' :: ys) :
    quotedWord double (n + 1) c text = .ok (text, c) := by
  rw [quotedWord_of_head h (by decide), wordRound, peek_cons h]
  cases double <;> rfl

theorem quotedWord_at_quote (hclose : Closes double quote ys) (h : c.rest = quote :: ys) :
    quotedWord double (n + 1) c text = .ok (text, c) := by
  obtain ⟨rfl, rfl⟩ | ⟨rfl, rfl, hys⟩ := hclose
  · rw [quotedWord_of_head h (by decide), wordRound, peek_cons h]
    rfl
  · have hnext : (c.peekAt 1 == '\'') = false := by
      rw [peekAt, h]
      cases ys with
      | nil => rfl
      | cons y ys => exact beq_eq_false_iff_ne.mpr (hys y rfl)
    rw [quotedWord_of_head h (by decide), wordRound, peek_cons h, hnext]
    rfl

section

variable {spell : Char → List Char}

theorem quotedWord_eq (hspell : ∀ ch ∈ cs, Spells double (spell ch) ch)
    (hstop : ∀ {n c text}, c.rest = ys → quotedWord double (n + 1) c text = .ok (text, c))
    (h : c.rest = cs.flatMap spell ++ ys) (hn : c.rest.length < n) :
    quotedWord double n c text = .ok (text ++ cs, c.shift (cs.flatMap spell).length) := by
  induction cs generalizing c text n with
  | nil =>
    rcases n with _ | m
    · cases hn
    rw [hstop h, append_nil]
    rfl
  | cons ch cs ih =>
    rw [forall_mem_cons] at hspell
    have hfirst : c.rest = spell ch ++ (cs.flatMap spell ++ ys) := by
      rw [h, flatMap_cons, append_assoc]
    obtain ⟨m, hm, hread⟩ := hspell.1.read hfirst hn
    have hrest := rest_shift_length hfirst
    rw [hread, ih hspell.2 hrest (by rwa [hrest]), shift_shift, flatMap_cons,
      length_append, append_assoc, singleton_append]

theorem quotedGap_eq {k : Nat} {x : Char} (h : c.rest = List.replicate k ' ' ++ x :: ys)
    (hx : isBlankOrEnd x = false) :
    quotedGap c = .ok (List.replicate k ' ', c.shift k) := by
  obtain ⟨htab, hspace, hend, hbreak⟩ :
      (x == '\t') = false ∧ (x == ' ') = false ∧ (x == endChar) = false ∧ isBreak x = false := by
    simpa only [isBlankOrEnd, isSpaceOrEnd, isBreakOrEnd, Bool.or_eq_false_iff] using hx
  have hrun : c.run (fun ch => ch == ' ' || ch == '\t') = List.replicate k ' ' := by
    refine run_eq h ?_ ?_
    · intro y hy
      rw [eq_of_mem_replicate hy]
      rfl
    · rintro y ⟨⟩
      rw [hspace, htab]
      rfl
  have hpeek : (c.shift k).peek = x := peek_cons (rest_shift_spaces h)
  rw [quotedGap, hrun, advance_of_inline h isInline_of_mem_spaces, length_replicate]
  simp only [hpeek, hend, hbreak]
  rfl

/-- A text that starts with spaces: the spaces, a word, and the rest from the next space
on. -/
theorem exists_gap_word {cs : List Char} (h : cs.head? = some ' ') :
    ∃ k word tail, cs = List.replicate (k + 1) ' ' ++ (word ++ tail) ∧ (∀ x ∈ word, x ≠ ' ') ∧
      (∀ x ∈ tail.head?, x = ' ') ∧ (word = [] → tail = []) := by
  obtain ⟨m, later, rfl, hlater⟩ := exists_gap ' ' cs
  obtain ⟨word, tail, rfl, hword, htail⟩ := exists_word ' ' later
  cases m with
  | zero => exact absurd h hlater
  | succ k =>
    refine ⟨k, word, tail, rfl, hword, htail, ?_⟩
    rintro rfl
    cases tail with
    | nil => rfl
    | cons x tail => exact absurd (congrArg some (htail x rfl)) hlater

/-- A way to spell the characters of a text, in which a space stands for itself. -/
structure Spelling (double : Bool) (spell : Char → List Char) (cs : List Char) : Prop where
  space : spell ' ' = [' ']
  other : ∀ ch ∈ cs, ch ≠ ' ' → Spells double (spell ch) ch

theorem Spelling.mono {cs' : List Char} (h : Spelling double spell cs) (hsub : cs' ⊆ cs) :
    Spelling double spell cs' :=
  ⟨h.space, fun ch hch => h.other ch (hsub hch)⟩

theorem quotedWord_at_end {tail : List Char} (hspace : spell ' ' = [' '])
    (hclose : Closes double quote ys) (htail : ∀ x ∈ tail.head?, x = ' ')
    (h : c.rest = tail.flatMap spell ++ quote :: ys) :
    quotedWord double (n + 1) c text = .ok (text, c) := by
  cases tail with
  | nil => exact quotedWord_at_quote hclose h
  | cons x tail =>
    rw [htail x rfl, flatMap_cons, hspace] at h
    exact quotedWord_at_space h

theorem gap_word_eq {k : Nat} {word tail : List Char}
    (hspell : Spelling double spell (word ++ tail)) (hclose : Closes double quote ys)
    (hword : ∀ x ∈ word, x ≠ ' ') (htail : ∀ x ∈ tail.head?, x = ' ')
    (hnil : word = [] → tail = [])
    (h : c.rest = List.replicate k ' ' ++ ((word ++ tail).flatMap spell ++ quote :: ys)) :
    quotedGap c = .ok (List.replicate k ' ', c.shift k) ∧
      quotedWord double ((c.shift k).rest.length + 1) (c.shift k) text =
        .ok (text ++ word, (c.shift k).shift (word.flatMap spell).length) := by
  have hsp : ∀ ch ∈ word, Spells double (spell ch) ch := fun ch hch =>
    hspell.other ch (mem_append_left _ hch) (hword ch hch)
  -- What follows the gap is the spelling of a word, or the quote.
  obtain ⟨x, xs, hx, hblank⟩ : ∃ x xs,
      (word ++ tail).flatMap spell ++ quote :: ys = x :: xs ∧ isBlankOrEnd x = false := by
    cases word with
    | nil =>
      rw [hnil rfl]
      exact ⟨quote, ys, rfl, hclose.quote_ne.2.1⟩
    | cons ch word =>
      obtain ⟨x, xs, hx, hblank⟩ := (hsp ch mem_cons_self).head
      refine ⟨x, xs ++ ((word ++ tail).flatMap spell ++ quote :: ys), ?_, hblank⟩
      rw [cons_append, flatMap_cons, hx, append_assoc, cons_append]
  have hafter := rest_shift_spaces h
  rw [flatMap_append, append_assoc] at hafter
  refine ⟨quotedGap_eq (hx ▸ h) hblank, ?_⟩
  exact quotedWord_eq hsp (quotedWord_at_end hspell.space hclose htail) hafter (Nat.lt_succ_self _)

theorem quotedFrom_eq (hspell : Spelling double spell cs) (hclose : Closes double quote ys)
    (hcs : ∀ x ∈ cs.head?, x = ' ') (h : c.rest = cs.flatMap spell ++ quote :: ys)
    (hn : c.rest.length < n) :
    quotedFrom double quote n c text = .ok (text ++ cs, c.shift (cs.flatMap spell).length) := by
  induction hlength : cs.length using Nat.strongRecOn generalizing cs c text n with
  | _ length ih =>
  rcases n with _ | m
  · cases hn
  cases hhead : cs.head? with
  | none =>
    obtain rfl := head?_eq_none_iff.mp hhead
    rw [quotedFrom, peek_cons h, if_pos (beq_self_eq_true quote), append_nil]
    rfl
  | some x =>
    obtain rfl := hcs x hhead
    obtain ⟨k, word, tail, rfl, hword, htail, hnil⟩ := exists_gap_word hhead
    have hgap : (List.replicate (k + 1) ' ').flatMap spell = List.replicate (k + 1) ' ' := by
      rw [flatMap_replicate, hspell.space, flatten_replicate_singleton]
    rw [flatMap_append, hgap, append_assoc] at h
    obtain ⟨hread, hwordRead⟩ := @gap_word_eq double quote c (text ++ List.replicate (k + 1) ' ') ys
      spell (k + 1) word tail (hspell.mono (subset_append_right _ _)) hclose hword htail hnil h
    have hlast : ((c.shift (k + 1)).shift (word.flatMap spell).length).rest =
        tail.flatMap spell ++ quote :: ys := by
      refine rest_shift_length ?_
      rw [rest_shift_spaces h, flatMap_append, append_assoc]
    have hpeek : ¬ (c.peek == quote) := by
      rw [peek_cons (h.trans cons_append), beq_iff_eq]
      exact hclose.quote_ne.1.symm
    rw [h, flatMap_append] at hn
    simp only [length_append, length_replicate] at hlength hn
    have hlater := @ih tail.length (by omega) _ (text ++ List.replicate (k + 1) ' ' ++ word) tail m
      (hspell.mono fun ch hch => mem_append_right _ (mem_append_right _ hch)) htail hlast
      (by rw [hlast, length_append]; omega) rfl
    rw [quotedFrom, if_neg hpeek, hread]
    simp only [bind, Except.bind]
    rw [hwordRead]
    simp only
    rw [hlater]
    simp only [append_assoc, shift_shift, flatMap_append, length_append, hgap,
      length_replicate, Nat.add_assoc]

/-- **Quoted scalars read back.**  A text whose characters are spelled between quotes is
what the scalar is read as, and the cursor stands after the closing quote. -/
theorem quoted_eq (hspell : Spelling double spell cs) (hclose : Closes double quote ys)
    (h : c.rest = quote :: (cs.flatMap spell ++ quote :: ys)) :
    quoted double c = .ok
      { text := cs, finish := (c.shift ((cs.flatMap spell).length + 2)).mark, broken := false
        cursor := c.shift ((cs.flatMap spell).length + 2) } := by
  -- The first word comes before any gap.
  obtain ⟨word, tail, rfl, hword, htail⟩ := exists_word ' ' cs
  have hspells : ∀ ch ∈ word, Spells double (spell ch) ch := fun ch hch =>
    hspell.other ch (mem_append_left _ hch) (hword ch hch)
  have hfirst : (c.shift 1).rest = word.flatMap spell ++ (tail.flatMap spell ++ quote :: ys) := by
    rw [rest_shift, h, flatMap_append, append_assoc]
    rfl
  have hsecond := rest_shift_length hfirst
  have hlast := rest_shift_length hsecond
  have hreadWord := @quotedWord_eq _ _ [] _ _ _ _ hspells
    (quotedWord_at_end hspell.space hclose htail) hfirst (Nat.lt_succ_self _)
  have hreadRest := @quotedFrom_eq _ _ _ ([] ++ word) _ _ _ _
    (hspell.mono (subset_append_right word tail)) hclose htail hsecond
    (Nat.lt_succ_self _)
  have hlength : 1 + ((word.flatMap spell).length + ((tail.flatMap spell).length + 1)) =
      ((word ++ tail).flatMap spell).length + 2 := by
    rw [flatMap_append, length_append]
    omega
  rw [quoted, peek_cons h, next_of_inline h hclose.quote_ne.2.2]
  simp only [bind, Except.bind]
  rw [hreadWord]
  simp only
  rw [hreadRest]
  simp only [pure, Except.pure]
  rw [next_of_inline hlast hclose.quote_ne.2.2, shift_shift, shift_shift,
    shift_shift, nil_append, hlength]

end

/-! ## The spellings that are written -/

def singleSpelling (ch : Char) : List Char := if ch == '\'' then ['\'', '\''] else [ch]

theorem spells_single (hinline : IsInline ch) (hblank : isBlankOrEnd ch = false) :
    Spells false (singleSpelling ch) ch := by
  rw [singleSpelling]
  by_cases hquote : ch = '\''
  · rw [if_pos (beq_iff_eq.mpr hquote), hquote]
    refine spells_of_round (by decide) (by decide) (by decide) ?_
    intro n c text ys h
    have hnext : c.peekAt 1 = '\'' := by rw [peekAt, h]; rfl
    rw [wordRound, peek_cons h, hnext]
    have hadvance := @advance_of_inline c ['\'', '\''] ys h (by decide)
    exact congrArg (fun c => quotedWord false n c (text ++ ['\''])) hadvance
  · rw [if_neg (mt beq_iff_eq.mp hquote)]
    by_cases hord : isOrdinary ch
    · exact spells_ordinary false hord hinline
    · have hmark : ch = '"' ∨ ch = '\\' := by
        rw [or_iff_not_imp_left]
        simpa [isOrdinary, hquote, hblank] using hord
      refine spells_of_round (fun y hy => mem_singleton.mp hy ▸ hinline)
        (eq_false_iff.mpr hord) hblank ?_
      intro n c text ys h
      rw [wordRound, peek_cons h, next_of_inline h hinline]
      obtain rfl | rfl := hmark <;> rfl

theorem isInline_of_isPlainInDouble (h : Sheet.isPlainInDouble ch) :
    IsInline ch ∧ (ch ≠ ' ' → isBlankOrEnd ch = false) := by
  have hne : ∀ x : Char, Sheet.isPlainInDouble x = false → (ch == x) = false := by
    rintro x hx
    rw [beq_eq_false_iff_ne]
    rintro rfl
    rw [h] at hx
    cases hx
  have hnat : ∀ x : Char, Sheet.isPlainInDouble x = false → (ch.toNat == x.toNat) = false := by
    intro x hx
    have := hne x hx
    rw [beq_eq_false_iff_ne] at this ⊢
    exact mt Char.toNat_inj.mp this
  have hbreak : isBreak ch = false := by
    simp only [isBreak, or_eq_false_iff]
    refine ⟨⟨⟨⟨hne _ (by decide), hne _ (by decide)⟩, ?_⟩, ?_⟩, ?_⟩
    · exact hnat (Char.ofNat 0x85) (by decide)
    · exact hnat (Char.ofNat 0x2028) (by decide)
    · exact hnat (Char.ofNat 0x2029) (by decide)
  refine ⟨⟨hbreak, beq_eq_false_iff_ne.mp (hne _ (by decide))⟩, fun hspace => ?_⟩
  simp only [isBlankOrEnd, isSpaceOrEnd, isBreakOrEnd, or_eq_false_iff]
  exact ⟨hne _ (by decide), beq_eq_false_iff_ne.mpr hspace, hne _ (by decide), hbreak⟩

theorem spells_escape (hinline : ∀ y ∈ xs, IsInline y)
    (hread : ∀ {c ys}, c.rest = xs ++ ys → escaped c = .ok ([ch], c.shift xs.length)) :
    Spells true ('\\' :: xs) ch := by
  refine spells_of_round (forall_mem_cons.mpr ⟨by decide, hinline⟩) (by decide) (by decide) ?_
  intro n c text ys h
  have hrest : (c.shift 1).rest = xs ++ ys := by rw [rest_shift, h]; rfl
  rw [wordRound, peek_cons h, next_of_inline h (by decide), hread hrest,
    length_cons, Nat.add_comm, ← shift_shift]
  rfl

theorem escaped_letter (hletter : escape? letter = some ch) (hinline : IsInline letter)
    (h : c.rest = letter :: ys) : escaped c = .ok ([ch], c.shift 1) := by
  rw [escaped, peek_cons h, hletter, next_of_inline h hinline]

theorem spells_shortEscape (h : Sheet.shortEscape? ch = some letter) :
    Spells true ['\\', letter] ch := by
  have htable : ∀ e ∈ Sheet.shortEscapes, escape? e.2 = some (Char.ofNat e.1) ∧ IsInline e.2 := by
    decide
  obtain ⟨before, after, heq, -⟩ := lookup_eq_some_iff.mp h
  have hmem : (ch.toNat, letter) ∈ Sheet.shortEscapes := heq ▸ mem_append_right _ mem_cons_self
  obtain ⟨hletter, hinline⟩ := htable _ hmem
  rw [Char.ofNat_toNat] at hletter
  refine spells_escape (fun y hy => mem_singleton.mp hy ▸ hinline) ?_
  intro c ys hrest
  exact escaped_letter hletter hinline hrest

/-! ### Numeric escapes -/

theorem escapeDigits_eq (h : c.rest = ds ++ ys) (hds : ∀ d ∈ ds, (hexValue? d).isSome) :
    escapeDigits c ds.length = .ok (hexNat ds) := by
  have hdigits : (range ds.length).map c.peekAt = ds := by
    refine ext_getElem (by simp) ?_
    intro i h₁ h₂
    simp only [getElem_map, getElem_range, peekAt, h, getD_eq_getElem?_getD]
    rw [getElem?_append_left h₂, getElem?_eq_getElem h₂]
    rfl
  have hnone : ds.find? (fun d => (hexValue? d).isNone) = none := by
    rw [find?_eq_none]
    intro d hd
    rw [Option.isNone_iff_eq_none]
    exact Option.ne_none_iff_isSome.mpr (hds d hd)
  rw [escapeDigits, hdigits, hnone]

theorem code_le (ch : Char) : code ch ≤ 0x10ffff := by
  have hch : ch.toNat < 0xd800 ∨ 0xdfff < ch.toNat ∧ ch.toNat < 0x110000 := ch.valid
  have hlt : ch.toNat ≤ 0x10ffff := by omega
  cases hhalf : halfUnit? ch with
  | none => rwa [code, hhalf]
  | some unit =>
    rw [halfUnit?] at hhalf
    have hunit : ch.toNat - 0x100000 = unit := by
      split at hhalf
      · exact Option.some.inj hhalf
      · cases hhalf
    rw [code, halfUnit?, hhalf, Option.getD_some]
    omega

theorem ofCode_code (ch : Char) : (if isHalfUnit (code ch) then half (code ch)
      else Char.ofNat (code ch)) = ch := by
  rw [code, halfUnit?]
  split
  case isTrue h =>
    rw [and_eq_true, decide_eq_true_eq] at h
    rw [Option.getD_some, if_pos h.2, half, Nat.add_sub_cancel' h.1, Char.ofNat_toNat]
  case isFalse h =>
    have hvalid : ¬ isHalfUnit ch.toNat := by
      have hch : ch.toNat < 0xd800 ∨ 0xdfff < ch.toNat ∧ ch.toNat < 0x110000 := ch.valid
      simp only [isHalfUnit, and_eq_true, decide_eq_true_eq]
      omega
    rw [Option.getD_none, if_neg hvalid, Char.ofNat_toNat]

theorem escaped_number {mark : Char} (hmark : escape? mark = none)
    (hwidth : escapeWidth? mark = some ds.length) (hinline : ∀ y ∈ mark :: ds, IsInline y)
    (hds : ∀ d ∈ ds, (hexValue? d).isSome) (hnumber : hexNat ds = code ch)
    (h : c.rest = mark :: ds ++ ys) : escaped c = .ok ([ch], c.shift (mark :: ds).length) := by
  rw [forall_mem_cons] at hinline
  have hrest : (c.shift 1).rest = ds ++ ys := by rw [rest_shift, h]; rfl
  have hcode : escapedCode (c.shift 1) ds.length = .ok (ch, c.shift (mark :: ds).length) := by
    rw [escapedCode, escapeDigits_eq hrest hds, hnumber, advance_of_inline hrest hinline.2,
      shift_shift, length_cons, Nat.add_comm 1]
    simp only [bind, Except.bind, ofCode_code]
    rw [if_neg (Nat.not_lt.mpr (code_le ch))]
    rfl
  rw [escaped, peek_cons h, hmark, hwidth, next_of_inline h hinline.1]
  simp only [bind, Except.bind]
  rw [hcode]
  rfl

def escapeDigit (d : Nat) : Char := (Nat.digitChar d).toUpper

theorem hexValue?_escapeDigit : ∀ d < 16, hexValue? (escapeDigit d) = some d ∧
    IsInline (escapeDigit d) := by
  decide

theorem hexNat_map {ds : List Nat} (h : ∀ d ∈ ds, d < 16) :
    hexNat (ds.map escapeDigit) = ofDigits 16 ds := by
  rw [hexNat, ofDigits, foldl_map]
  refine foldl_ext _ _ _ ?_
  intro n d hd
  rw [(hexValue?_escapeDigit d (h d hd)).1, Option.getD_some]

theorem exists_upperHex {width n : Nat} (hwidth : 0 < width) (hn : n < 16 ^ width) :
    ∃ ds : List Nat, (Sheet.upperHex width n).toList = ds.map escapeDigit ∧
      (∀ d ∈ ds, d < 16) ∧ ofDigits 16 ds = n ∧ ds.length = width := by
  obtain ⟨ds, hds, hlt, hvalue, hlength⟩ := exists_hexPadded hwidth hn
  refine ⟨ds, ?_, hlt, hvalue, hlength⟩
  rw [Sheet.upperHex, String.toList_ofList, hds, map_map]
  rfl

theorem spells_number {mark : Char} {width : Nat} (hmark : escape? mark = none)
    (hwidth : escapeWidth? mark = some width) (hinline : IsInline mark) (hpos : 0 < width)
    (hch : code ch < 16 ^ width) :
    Spells true ('\\' :: mark :: (Sheet.upperHex width (code ch)).toList) ch := by
  obtain ⟨ds, hds, hlt, hvalue, hlength⟩ := exists_upperHex hpos hch
  have hall : ∀ y ∈ mark :: ds.map escapeDigit, IsInline y := by
    rw [forall_mem_cons, forall_mem_map]
    exact ⟨hinline, fun d hd => (hexValue?_escapeDigit d (hlt d hd)).2⟩
  rw [hds]
  refine spells_escape hall ?_
  intro c ys h
  refine escaped_number hmark ?_ hall ?_ ?_ h
  · rw [hwidth, length_map, hlength]
  · rw [forall_mem_map]
    intro d hd
    rw [(hexValue?_escapeDigit d (hlt d hd)).1]
    rfl
  · rw [hexNat_map hlt, hvalue]

/-- Every character but the space is read back as it is spelled between double quotes. -/
theorem spells_double (hspace : ch ≠ ' ') : Spells true (Sheet.doubleChar ch).toList ch := by
  rw [Sheet.doubleChar]
  split
  case isTrue hplain =>
    obtain ⟨hinline, hblank⟩ := isInline_of_isPlainInDouble hplain
    rw [String.toList_singleton]
    by_cases hquote : ch = '\''
    · subst hquote
      refine spells_of_round (by decide) (by decide) (by decide) ?_
      intro n c text ys h
      rw [wordRound, peek_cons h, next_of_inline h (by decide)]
      rfl
    · refine spells_ordinary true ?_ hinline
      obtain ⟨hdouble, hback⟩ : ch ≠ '"' ∧ ch ≠ '\\' := by
        constructor <;> rintro rfl <;> exact absurd hplain (by decide)
      simp [isOrdinary, hquote, hdouble, hback, hblank hspace]
  case isFalse =>
    split
    case h_1 letter hletter =>
      rw [String.toList_ofList]
      exact spells_shortEscape hletter
    case h_2 =>
      have hcode := code_le ch
      dsimp only
      split
      case isTrue h =>
        rw [String.toList_append]
        exact spells_number rfl rfl (by decide) (by decide) (by omega)
      case isFalse =>
        split
        case isTrue h =>
          rw [String.toList_append]
          exact spells_number rfl rfl (by decide) (by decide) (by omega)
        case isFalse =>
          rw [String.toList_append]
          exact spells_number rfl rfl (by decide) (by decide) (by omega)

end FlowLock.Yaml.Scalar
