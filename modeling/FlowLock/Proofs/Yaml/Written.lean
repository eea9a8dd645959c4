import FlowLock.Proofs.Yaml.Integer
import FlowLock.Proofs.Yaml.Scan
import FlowLock.Proofs.Yaml.Sheet

/-!
# Scalars read back

The form in which a text is written follows from its characters.  Whichever form is
chosen, the text comes back, and it comes back as a text: a plain form is chosen only
where the schema takes it for one.
-/

namespace FlowLock.Yaml

open Analysis List Text String Bool

variable {c : Char} {cs : List Char} {n : Nat} {s : String}

/-- A line break outside ASCII. -/
def isWideBreak (c : Char) : Bool := c.toNat == 0x85 || c.toNat == 0x2028 || c.toNat == 0x2029

/-! ## Characters -/

theorem isWrittenBreak_of_narrow (h : isWideBreak c = false) :
    isWrittenBreak c = (c == '\n') := by
  rw [isWideBreak, Bool.or_eq_false_iff, Bool.or_eq_false_iff] at h
  rw [isWrittenBreak, h.1.1, h.1.2, h.2, Bool.or_false, Bool.or_false, Bool.or_false]

theorem isPlainChar_of_narrow (hspecial : isSpecial c = false)
    (hnarrow : isWideBreak c = false) (hbreak : c ≠ '\n') : Scalar.IsPlainChar c := by
  have hne : ∀ x, isSpecial x → (c == x) = false := by
    intro x hx
    rw [beq_eq_false_iff_ne]
    rintro rfl
    rw [hspecial] at hx
    cases hx
  rw [isWideBreak, or_eq_false_iff, or_eq_false_iff] at hnarrow
  have hinline : isBreak c = false := by
    rw [isBreak, hnarrow.1.1, hnarrow.1.2, hnarrow.2, beq_eq_false_iff_ne.mpr hbreak,
      hne '\r' (by decide)]
    rfl
  refine ⟨⟨hinline, beq_eq_false_iff_ne.mp (hne _ (by decide))⟩, fun hspace => ?_⟩
  rw [isBlankOrEnd, isSpaceOrEnd, isBreakOrEnd, hinline, hne '\t' (by decide),
    hne endChar (by decide), beq_eq_false_iff_ne.mpr hspace]
  rfl

theorem code_of_not_special (h : isSpecial c = false) : code c = c.toNat := by
  rw [code]
  cases hhalf : halfUnit? c with
  | none => rfl
  | some unit =>
    -- The number of a half lies in a gap of the characters that need no escape.
    rw [isSpecial, code, hhalf, Option.getD_some] at h
    rw [halfUnit?] at hhalf
    split at hhalf
    case isFalse => cases hhalf
    case isTrue hwide =>
      simp only [isHalfUnit, Bool.and_eq_true, decide_eq_true_eq] at hwide
      have hbreak : (c == '\n') = false := by
        rw [beq_eq_false_iff_ne]
        rintro rfl
        have hcode : ('\n' : Char).toNat = 10 := rfl
        omega
      obtain rfl := Option.some.inj hhalf
      simp only [hbreak, Bool.false_or, Bool.and_eq_false_iff, Bool.not_eq_false', Bool.and_eq_true,
        decide_eq_true_eq, Bool.or_eq_false_iff, Bool.or_eq_true, beq_iff_eq] at h
      omega

theorem isAcceptable_of_not_special (h : isSpecial c = false) : isAcceptable c := by
  rw [isSpecial, code_of_not_special h] at h
  simp only [and_eq_false_iff, not_eq_false', and_eq_true, decide_eq_true_eq,
    or_eq_false_iff, or_eq_true, beq_iff_eq] at h
  simp only [isAcceptable, or_eq_true, and_eq_true, decide_eq_true_eq, beq_iff_eq]
  obtain (rfl | h) | h := h
  · decide
  · omega
  · omega

theorem isAcceptable_singleSpelling (h : isSpecial c = false) :
    ∀ x ∈ Scalar.singleSpelling c, isAcceptable x := by
  have hc := isAcceptable_of_not_special h
  rw [Scalar.singleSpelling]
  split
  · decide
  · simpa using hc

theorem isAcceptable_upperHex {width k : Nat} (hwidth : 0 < width) (hk : k < 16 ^ width) :
    ∀ x ∈ (Sheet.upperHex width k).toList, isAcceptable x := by
  obtain ⟨ds, hds, hlt, -⟩ := Scalar.exists_upperHex hwidth hk
  have htable : ∀ d < 16, isAcceptable (Scalar.escapeDigit d) := by decide
  rw [hds, forall_mem_map]
  exact fun d hd => htable d (hlt d hd)

theorem isAcceptable_doubleChar (c : Char) : ∀ x ∈ (Sheet.doubleChar c).toList, isAcceptable x := by
  rw [Sheet.doubleChar]
  split
  case isTrue hplain =>
    rw [toList_singleton, forall_mem_singleton]
    simp only [Sheet.isPlainInDouble, and_eq_true, or_eq_true, decide_eq_true_eq] at hplain
    simp only [isAcceptable, or_eq_true, and_eq_true, decide_eq_true_eq, beq_iff_eq]
    omega
  case isFalse =>
    have hcode := Scalar.code_le c
    split
    case h_1 letter hletter =>
      have htable : ∀ e ∈ Sheet.shortEscapes, isAcceptable e.2 := by decide
      obtain ⟨before, after, heq, -⟩ := lookup_eq_some_iff.mp hletter
      have hmem : (c.toNat, letter) ∈ Sheet.shortEscapes := heq ▸ mem_append_right _ mem_cons_self
      rw [toList_ofList, forall_mem_cons, forall_mem_singleton]
      exact ⟨by decide, htable (c.toNat, letter) hmem⟩
    case h_2 =>
      dsimp only
      split_ifs <;>
      · rw [toList_append, forall_mem_append]
        exact ⟨by decide, isAcceptable_upperHex (by decide) (by omega)⟩

/-! ## Forms -/

theorem not_special_of_any (h : cs.any isSpecial = false) : ∀ c ∈ cs, isSpecial c = false :=
  fun c hc => eq_false_iff.mpr (any_eq_false.mp h c hc)

theorem plainText_of_analysis (hne : cs ≠ []) (hnarrow : ∀ c ∈ cs, isWideBreak c = false)
    (h : (of cs).plain) : Scalar.PlainText cs := by
  obtain ⟨x, xs, rfl⟩ := exists_cons_of_ne_nil hne
  simp only [of, and_eq_true, not_eq_true', or_eq_false_iff] at h
  obtain ⟨⟨⟨⟨⟨⟨⟨hfirst, -⟩, hlast⟩, -⟩, hbreaks⟩, hspecial⟩, hindicator⟩, hseparator⟩ := h
  have hlast? : (x :: xs).getLast? = some ((x :: xs).getLastD x) := by
    rw [getLast?_cons, getLastD_cons, getLastD_eq_getLast?]
  refine ⟨hne, fun c hc => ?_, ?_, ?_, hindicator, hseparator⟩
  · refine isPlainChar_of_narrow (not_special_of_any hspecial c hc) (hnarrow c hc) ?_
    rintro rfl
    exact any_eq_false.mp hbreaks _ hc rfl
  · rw [head?_cons]
    exact fun heq => beq_eq_false_iff_ne.mp hfirst (Option.some.inj heq)
  · rw [hlast?]
    exact fun heq => beq_eq_false_iff_ne.mp hlast (Option.some.inj heq)

theorem not_special_of_analysis (h : (of cs).plain ∨ (of cs).single ∨ (of cs).block) :
    ∀ c ∈ cs, isSpecial c = false := by
  cases cs with
  | nil => simp
  | cons x xs =>
    simp only [of, and_eq_true, not_eq_true'] at h
    rcases h with h | h | h
    · exact not_special_of_any h.1.1.2
    · exact not_special_of_any h.2
    · exact not_special_of_any h.2

namespace Written

variable {key : Bool}

/-- What the form of a text tells of it. -/
theorem form_cases (w : Written) (key : Bool) :
    (w.form key = .plain → w.resolves ∧ (of w.text).plain) ∧
    (w.form key = .literal → (of w.text).block ∧ key = false) ∧
    (w.form key = .single → w.wanted = none ∧ (of w.text).single) := by
  unfold form
  dsimp only
  split_ifs <;> simp_all

theorem write_ofText {env : Bool} {s : String} (i : Nat) (sheet : Sheet) :
    (ofText env s).write key i sheet =
      match (ofText env s).form key with
      | .plain => sheet.plain s.toList
      | .single => sheet.single i s.toList
      | .double => sheet.double s.toList
      | .literal => sheet.literal i s.toList := by
  have htag : (ofText env s).needsTag ((ofText env s).form key) = false := by
    rw [needsTag]
    split
    case isTrue hplain => rw [((form_cases _ key).1 (beq_iff_eq.mp hplain)).1]; rfl
    case isFalse => rfl
  rw [write, htag]
  rfl

theorem wanted_ofText {env : Bool} {s : String} (h : (ofText env s).wanted = none) :
    '\n' ∉ s.toList := by
  intro hmem
  have hhas : hasChar s '\n' := contains_iff_mem.mpr hmem
  rw [ofText, isQuotedInEnv, hhas] at h
  cases env <;> cases h

end Written

/-! ## What scalars are read as -/

def scalarTag (plain : Bool) (text : String) : String :=
  if plain then Schema.workflow.resolve text else Tag.str

def Denotes (tag text : String) (v : Value) : Prop :=
  ∃ maker, Maker.ofTag? tag = some maker ∧ maker.isCollection = false ∧
    ∀ mark, scalarValue maker mark text = .ok v

theorem denotes_str (s : String) : Denotes Tag.str s (.str s) :=
  ⟨.str, by decide, rfl, fun _ => rfl⟩

def Lays (write : Sheet → Sheet) (n : Nat) (ks : List TokenKind) : Prop :=
  ∀ entry, ∃ cs, (∀ c ∈ cs, isAcceptable c = true) ∧ Lexer.ScansValue n entry cs ks ∧
    ∀ {s xs}, Sheet.Marked s n entry xs → Sheet.Ended (write s) n (xs ++ cs)

theorem lays_inline {plain : Bool} {xs : List Char} {write : Sheet → Sheet}
    (hreads : Lexer.ReadsAs plain xs cs) (hwrites : ∀ s, Sheet.Writes s (write s) xs)
    (hxs : ∀ x ∈ xs, isAcceptable x) :
    Lays write n [.scalar (ofList cs) plain] := by
  intro entry
  refine ⟨_, ?_, Lexer.scansValue_scalar hreads, fun h => h.writes (hwrites _)⟩
  rw [forall_mem_cons, forall_mem_append, forall_mem_singleton]
  exact ⟨by decide, hxs, by decide⟩

theorem readsAs_single (h : ∀ c ∈ cs, isSpecial c = false)
    (hnarrow : ∀ c ∈ cs, isWideBreak c = false) (hbreak : '\n' ∉ cs) :
    Lexer.ReadsAs false ('\'' :: (cs.flatMap Scalar.singleSpelling ++ ['\''])) cs := by
  refine Lexer.readsAs_quoted ⟨rfl, fun c hc hspace => ?_⟩ (.inr ⟨rfl, rfl, by simp⟩)
  obtain ⟨hinline, hblank⟩ := isPlainChar_of_narrow (h c hc) (hnarrow c hc) fun heq =>
    hbreak (heq ▸ hc)
  exact Scalar.spells_single hinline (hblank hspace)

theorem readsAs_double (cs : List Char) : Lexer.ReadsAs false
      ('"' :: (cs.flatMap (fun c => (Sheet.doubleChar c).toList) ++ ['"'])) cs :=
  Lexer.readsAs_quoted ⟨by decide, fun _ _ hspace => Scalar.spells_double hspace⟩ (.inl ⟨rfl, rfl⟩)

theorem isAcceptable_quoted {quote : Char} {spell : Char → List Char}
    (hquote : isAcceptable quote)
    (hspell : ∀ c ∈ cs, ∀ x ∈ spell c, isAcceptable x) :
    ∀ x ∈ quote :: (cs.flatMap spell ++ [quote]), isAcceptable x := by
  rw [forall_mem_cons, forall_mem_append, forall_mem_singleton]
  refine ⟨hquote, fun x hx => ?_, hquote⟩
  obtain ⟨c, hc, hx⟩ := mem_flatMap.mp hx
  exact hspell c hc x hx

/-- A text that is not written as a block is written on one line, and reads back. -/
theorem exists_inline {env key : Bool} (hs : ∀ c ∈ s.toList, isWideBreak c = false)
    (hform : (Written.ofText env s).form key ≠ .literal) :
    ∃ plain xs, Lexer.ReadsAs plain xs s.toList ∧
      (∀ i sheet, Sheet.Writes sheet ((Written.ofText env s).write key i sheet) xs) ∧
      (∀ x ∈ xs, isAcceptable x) ∧ scalarTag plain s = Tag.str := by
  cases hkind : (Written.ofText env s).form key with
  | literal => exact absurd hkind hform
  | plain =>
    obtain ⟨hresolves, hplain⟩ := (Written.form_cases _ key).1 hkind
    have hresolve : Schema.workflow.resolve s = Tag.str := by
      have := beq_iff_eq.mp hresolves
      rwa [Written.ofText, ofList_toList] at this
    have hne : s.toList ≠ [] := by
      intro hnil
      rw [toList_eq_nil_iff.mp hnil] at hresolve
      exact absurd hresolve (by decide)
    have htext : Scalar.PlainText s.toList := plainText_of_analysis hne hs hplain
    refine ⟨true, s.toList, Lexer.readsAs_plain htext, fun i sheet => ?_, fun c hc => ?_, hresolve⟩
    · rw [Written.write_ofText, hkind]
      exact Sheet.writes_plain hne
    · exact isAcceptable_of_not_special (not_special_of_analysis (.inl hplain) c hc)
  | single =>
    obtain ⟨hwanted, hsingle⟩ := (Written.form_cases _ key).2.2 hkind
    have hspecial := not_special_of_analysis (.inr (.inl hsingle))
    have hbreak := Written.wanted_ofText hwanted
    refine ⟨false, _, readsAs_single hspecial hs hbreak, fun i sheet => ?_, ?_, rfl⟩
    · rw [Written.write_ofText, hkind]
      refine Sheet.writes_single fun c hc => ?_
      rw [isWrittenBreak_of_narrow (hs c hc), beq_eq_false_iff_ne]
      exact fun heq => hbreak (heq ▸ hc)
    · exact isAcceptable_quoted (by decide) fun c hc => isAcceptable_singleSpelling (hspecial c hc)
  | double =>
    refine ⟨false, _, readsAs_double s.toList, fun i sheet => ?_, ?_, rfl⟩
    · rw [Written.write_ofText, hkind]
      exact Sheet.writes_double
    · exact isAcceptable_quoted (by decide) fun c _ => isAcceptable_doubleChar c

theorem isAcceptable_literalHints (cs : List Char) :
    ∀ x ∈ (Sheet.literalHints cs).toList, isAcceptable x := by
  unfold Sheet.literalHints
  dsimp only
  rw [toList_append, forall_mem_append]
  constructor <;> repeat' split
  all_goals decide

theorem mem_literalText {width : Nat} {start : Bool} {x : Char}
    (h : x ∈ Scalar.literalText width start cs) : x = ' ' ∨ x = '\n' ∨ x ∈ cs := by
  induction cs generalizing start with
  | nil =>
    cases start with
    | true => cases h
    | false => exact .inr (.inl (mem_singleton.mp h))
  | cons c cs ih =>
    rw [Scalar.literalText] at h
    split at h
    case isTrue hc =>
      obtain rfl | h := mem_cons.mp h
      · exact .inr (.inl rfl)
      · exact (ih h).imp_right (Or.imp_right (mem_cons_of_mem c))
    case isFalse hc =>
      obtain h | h := mem_append.mp h
      · split at h
        · exact .inl (eq_of_mem_replicate h)
        · cases h
      · obtain rfl | h := mem_cons.mp h
        · exact .inr (.inr mem_cons_self)
        · exact (ih h).imp_right (Or.imp_right (mem_cons_of_mem c))

theorem lays_literal (hne : cs ≠ []) (hspecial : ∀ c ∈ cs, isSpecial c = false)
    (hnarrow : ∀ c ∈ cs, isWideBreak c = false) :
    Lays (fun s => s.literal (n + 2) cs) n [.scalar (ofList cs) false] := by
  have hplain : ∀ c ∈ cs, c ≠ '\n' → Scalar.IsPlainChar c := fun c hc =>
    isPlainChar_of_narrow (hspecial c hc) (hnarrow c hc)
  intro entry
  refine ⟨_, ?_, Lexer.scansValue_literal hne hplain, fun h => h.literal fun c hc hbreak => ?_⟩
  · rw [forall_mem_cons, forall_mem_cons, forall_mem_append, forall_mem_cons]
    refine ⟨by decide, by decide, isAcceptable_literalHints cs, by decide, fun x hx => ?_⟩
    obtain rfl | rfl | hx := mem_literalText hx
    · decide
    · decide
    · exact isAcceptable_of_not_special (hspecial x hx)
  · rw [isWrittenBreak_of_narrow (hnarrow c hc), beq_eq_false_iff_ne]
    exact hbreak

theorem lays_text (env : Bool) (hs : ∀ c ∈ s.toList, isWideBreak c = false) (n : Nat) :
    ∃ plain, scalarTag plain s = Tag.str ∧
      Lays ((Written.ofText env s).write false (n + 2)) n [.scalar s plain] := by
  by_cases hkind : (Written.ofText env s).form false = .literal
  · obtain ⟨hblock, -⟩ := (Written.form_cases _ false).2.1 hkind
    have hlays := @lays_literal _ n (fun hnil => by rw [hnil] at hblock; cases hblock)
      (not_special_of_analysis (.inr (.inr hblock))) hs
    have hwrite : (Written.ofText env s).write false (n + 2) =
        fun sheet => sheet.literal (n + 2) s.toList := by
      funext sheet
      rw [Written.write_ofText, hkind]
    refine ⟨false, rfl, ?_⟩
    rw [hwrite]
    rwa [Written.ofText, ofList_toList] at hlays
  · obtain ⟨plain, xs, hreads, hwrites, hxs, htag⟩ := exists_inline hs hkind
    refine ⟨plain, htag, ?_⟩
    have hlays := @lays_inline _ n _ _ _ hreads (hwrites (n + 2)) hxs
    rwa [ofList_toList] at hlays

theorem exists_simpleKey (hs : ∀ c ∈ s.toList, isWideBreak c = false) :
    ∃ plain xs, Lexer.ReadsAs plain xs s.toList ∧
      (∀ i sheet, Sheet.Writes sheet ((Written.ofText false s).write true i sheet) xs) ∧
      (∀ x ∈ xs, isAcceptable x) ∧ scalarTag plain s = Tag.str := by
  refine exists_inline hs fun hform => ?_
  cases ((Written.form_cases _ true).2.1 hform).2

/-! ## Other scalars -/

theorem Written.write_plain {w : Written} (hwanted : w.wanted = none) (hresolves : w.resolves)
    (hplain : (of w.text).plain) (i : Nat) (s : Sheet) :
    w.write false i s = s.plain w.text := by
  have hform : w.form false = .plain := by
    rw [form, hwanted, hresolves, hplain]
    rfl
  rw [write, hform, needsTag, hresolves]
  rfl

theorem lays_null (env : Bool) (n : Nat) : Lays (writeScalar env (some n) .null) n [] := by
  have hwrite : ∀ s : Sheet, writeScalar env (some n) .null s = s := by
    intro s
    exact Written.write_plain (w := { text := [], tag := "null", wanted := none }) rfl
      (by decide) rfl (n + 2) s
  intro entry
  refine ⟨['\n'], by decide, Lexer.scansValue_null, fun h => ?_⟩
  rw [hwrite]
  exact h.ended

theorem lays_plain {w : Written} (hwanted : w.wanted = none) (hresolves : w.resolves)
    (hplain : (of w.text).plain) (hne : w.text ≠ [])
    (hnarrow : ∀ c ∈ w.text, isWideBreak c = false) :
    Lays (w.write false (n + 2)) n [.scalar (ofList w.text) true] := by
  refine lays_inline (Lexer.readsAs_plain (plainText_of_analysis hne hnarrow hplain)) ?_ ?_
  · intro s
    rw [Written.write_plain hwanted hresolves hplain]
    exact Sheet.writes_plain hne
  · exact fun c hc => isAcceptable_of_not_special (not_special_of_analysis (.inl hplain) c hc)

theorem lays_bool (env b : Bool) (n : Nat) : ∃ text, Denotes (scalarTag true text) text (.bool b) ∧
      Lays (writeScalar env (some n) (.bool b)) n [.scalar text true] := by
  refine ⟨if b then "true" else "false", ?_, ?_⟩
  · have hread : readBool? (if b then "true" else "false") = some b := by
      cases b <;> decide
    refine ⟨.bool, ?_, rfl, fun mark => ?_⟩
    · cases b <;> decide
    · rw [scalarValue, hread]
      rfl
  · have hlays := @lays_plain n
      { text := (if b then "true" else "false").toList, tag := "bool", wanted := none } rfl
      (by cases b <;> decide) (by cases b <;> decide) (by cases b <;> decide)
      (by cases b <;> decide)
    rwa [ofList_toList] at hlays

theorem scalarTag_int (k : Int) : scalarTag true (toString k) = Tag.int := by
  have hresolve := (numeral_toString k).resolve
  rwa [ofList_toList] at hresolve

theorem denotes_int {k : Int} (hk : digitCount k ≤ maxDecimalDigits) :
    Denotes Tag.int (toString k) (.int k) := by
  have hread := (numeral_toString k).readInt?
  rw [ofList_toList, withinDigits, if_neg (Nat.not_lt.mpr hk)] at hread
  refine ⟨.int, by decide, rfl, fun mark => ?_⟩
  rw [scalarValue, hread]
  rfl

theorem lays_int (env : Bool) (k : Int) (n : Nat) :
    Lays (writeScalar env (some n) (.int k)) n [.scalar (toString k) true] := by
  have hnumeral := numeral_toString k
  have hlays := @lays_plain n { text := (toString k).toList, tag := "int", wanted := none } rfl
    ?_ hnumeral.plain ?_ ?_
  · rwa [ofList_toList] at hlays
  · rw [Written.resolves, hnumeral.resolve]
    exact beq_self_eq_true _
  · exact hnumeral.ne_nil
  · exact hnumeral.forall_mem (by decide)

end FlowLock.Yaml
