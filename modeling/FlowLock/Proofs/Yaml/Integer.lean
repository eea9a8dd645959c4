import FlowLock.Proofs.Text
import FlowLock.Proofs.Text.Blank
import FlowLock.Proofs.Text.Digit
import FlowLock.Yaml.Scalar
import FlowLock.Yaml.Writer

/-!
# Integers read back

An integer is written as a sign and decimal digits.  This is the form of an integer in
every schema, no other form comes before it, and no character of it takes part in the
structure of a document.  Reading stops at a number of digits, so an integer reads back
when it has no more.
-/

namespace FlowLock.Yaml

open Analysis List Text

/-- How many digits an integer is written with. -/
def digitCount (n : Int) : Nat := (Nat.toDigits 10 n.natAbs).length

theorem lt_digitCount_pow {n : Nat} (h : 0 < n) : n < digitCount (10 ^ n) := by
  have hten : (10 : Int).natAbs = 10 := rfl
  rw [← Nat.not_le, digitCount, Nat.length_toDigits_le_iff (by decide) h, Int.natAbs_pow, hten]
  exact Nat.lt_irrefl _

/-- A sign and digits that write an integer; no zero stands in front of other digits. -/
structure Numeral (cs : List Char) (n : Int) : Prop where
  spelt : ∃ ds : List Nat, (∀ d ∈ ds, d < 10) ∧ (ds = [0] ∨ ∃ d rest, ds = d :: rest ∧ 0 < d) ∧
    ds.length = digitCount n ∧
    (cs = ds.map Nat.digitChar ∧ n = ofDigits 10 ds ∨
      cs = '-' :: ds.map Nat.digitChar ∧ n = -ofDigits 10 ds)

theorem numeral_toString (n : Int) : Numeral (toString n).toList n := by
  obtain ⟨ds, hds, hlt, hvalue, hhead⟩ := @exists_toDigits 10 (by decide) n.natAbs
  refine ⟨ds, hlt, hhead.imp_left And.right, ?_, ?_⟩
  · rw [digitCount, hds, length_map]
  cases n with
  | ofNat m =>
    refine .inl ⟨?_, ?_⟩
    · rw [← hds]
      exact String.toList_ofList
    · rw [hvalue]
      rfl
  | negSucc m =>
    refine .inr ⟨?_, ?_⟩
    · rw [← hds]
      change ("-" ++ Nat.repr (m + 1)).toList = _
      rw [String.toList_append]
      exact congrArg ('-' :: ·) String.toList_ofList
    · rw [hvalue]
      rfl

variable {cs : List Char} {n : Int} {ds : List Nat}

def isNumeralChar (c : Char) : Bool := c == '-' || isAsciiDigit c

theorem forall_mem_digits {P : Char → Prop} (hP : ∀ d < 10, P (Nat.digitChar d))
    (hlt : ∀ d ∈ ds, d < 10) : ∀ c ∈ ds.map Nat.digitChar, P c :=
  forall_mem_map.mpr fun d hd => hP d (hlt d hd)

theorem Numeral.forall_mem (h : Numeral cs n) {P : Char → Prop}
    (hP : ∀ c ∈ '-' :: (range 10).map Nat.digitChar, P c) : ∀ c ∈ cs, P c := by
  rw [forall_mem_cons] at hP
  obtain ⟨ds, hlt, -, -, hspelt⟩ := h.spelt
  have hdigits : ∀ c ∈ ds.map Nat.digitChar, P c :=
    forall_mem_digits (fun d hd => hP.2 _ (mem_map_of_mem (mem_range.mpr hd))) hlt
  obtain ⟨rfl, -⟩ | ⟨rfl, -⟩ := hspelt
  · exact hdigits
  · exact forall_mem_cons.mpr ⟨hP.1, hdigits⟩

theorem Numeral.chars (h : Numeral cs n) : ∀ c ∈ cs, isNumeralChar c := h.forall_mem (by decide)

theorem Numeral.ne_nil (h : Numeral cs n) : cs ≠ [] := by
  obtain ⟨ds, -, hhead, -, hspelt⟩ := h.spelt
  rintro rfl
  obtain ⟨hnil, -⟩ | ⟨hnil, -⟩ := hspelt
  · obtain rfl | ⟨d, rest, rfl, -⟩ := hhead <;> cases hnil
  · cases hnil

/-! ## The form of an integer -/

theorem hasIndicator_eq_false {before : Char} (h : ∀ c ∈ cs, c ≠ ':' ∧ c ≠ '#') :
    hasIndicator (some before) cs = false := by
  induction cs generalizing before with
  | nil => rfl
  | cons c cs ih =>
    rw [forall_mem_cons] at h
    rw [hasIndicator, ih h.2, isIndicator, beq_eq_false_iff_ne.mpr h.1.1,
      beq_eq_false_iff_ne.mpr h.1.2]
    rfl

theorem plain_of_chars {x : Char} {xs : List Char}
    (hchars : ∀ c ∈ x :: xs,
      (c == ' ') = false ∧ isWrittenBreak c = false ∧ isSpecial c = false)
    (hindicator : hasIndicator none (x :: xs) = false)
    (hseparator : startsLikeSeparator (x :: xs) = false) :
    (of (x :: xs)).plain := by
  obtain ⟨hspace, hbreak, -⟩ := hchars x mem_cons_self
  have hlast : (x :: xs).getLastD x ∈ x :: xs := by
    rw [getLastD_cons]
    exact getLastD_mem_cons
  obtain ⟨hspace', hbreak', -⟩ := hchars _ hlast
  have hbreaks : (x :: xs).any isWrittenBreak = false :=
    any_eq_false.mpr fun c hc => by rw [(hchars c hc).2.1]; exact Bool.false_ne_true
  have hspecial : (x :: xs).any isSpecial = false :=
    any_eq_false.mpr fun c hc => by rw [(hchars c hc).2.2]; exact Bool.false_ne_true
  rw [of]
  dsimp only
  rw [hspace, hbreak, hspace', hbreak', hbreaks, hspecial, hindicator, hseparator]
  rfl

theorem isIndicator_digit {before : Option Char} {d : Nat} (hd : d < 10) (xs : List Char) :
    isIndicator before (Nat.digitChar d) xs = false := by
  have htable : ∀ d < 10, "#,[]\x7b\x7d&*!|>'\"%@`".toList.contains (Nat.digitChar d) = false ∧
      (Nat.digitChar d == '?') = false ∧ (Nat.digitChar d == ':') = false ∧
      (Nat.digitChar d == '-') = false ∧ (Nat.digitChar d == '#') = false := by decide
  obtain ⟨hmarks, hquestion, hcolon, hminus, hhash⟩ := htable d hd
  cases before with
  | none => rw [isIndicator, hmarks, hquestion, hcolon, hminus]; rfl
  | some b => rw [isIndicator, hcolon, hhash]; rfl

theorem startsLikeSeparator_digit {d : Nat} (hd : d < 10) (xs : List Char) :
    startsLikeSeparator (Nat.digitChar d :: xs) = false ∧
      startsLikeSeparator ('-' :: Nat.digitChar d :: xs) = false := by
  have htable : ∀ d < 10, ('-' == Nat.digitChar d) = false ∧ ('.' == Nat.digitChar d) = false := by
    decide
  obtain ⟨hminus, hpoint⟩ := htable d hd
  constructor <;>
  · rw [startsLikeSeparator]
    simp [isPrefixOf, hminus, hpoint]

theorem Numeral.plain (h : Numeral cs n) : (of cs).plain := by
  have hchars : ∀ c ∈ cs, ((c == ' ') = false ∧ isWrittenBreak c = false ∧ isSpecial c = false) ∧
      (c ≠ ':' ∧ c ≠ '#') := h.forall_mem (by decide)
  obtain ⟨ds, hlt, hhead, -, hspelt⟩ := h.spelt
  obtain ⟨d, rest, rfl⟩ : ∃ d rest, ds = d :: rest := by
    obtain rfl | ⟨d, rest, rfl, -⟩ := hhead
    exacts [⟨0, [], rfl⟩, ⟨d, rest, rfl⟩]
  have hd := hlt d mem_cons_self
  obtain ⟨rfl, -⟩ | ⟨rfl, -⟩ := hspelt
  · refine plain_of_chars (fun c hc => (hchars c hc).1) ?_ (startsLikeSeparator_digit hd _).1
    rw [hasIndicator, isIndicator_digit hd,
      hasIndicator_eq_false fun c hc => (hchars c (mem_cons_of_mem _ hc)).2]
    rfl
  · refine plain_of_chars (fun c hc => (hchars c hc).1) ?_ (startsLikeSeparator_digit hd _).2
    have hminus : isIndicator none '-' ((d :: rest).map Nat.digitChar) = false := by
      have hblank : ∀ d < 10, isBlankOrEnd (Nat.digitChar d) = false := by decide
      rw [isIndicator, map_cons, headD_cons, hblank d hd]
      rfl
    rw [hasIndicator, hminus, hasIndicator_eq_false fun c hc => (hchars c (mem_cons_of_mem _ hc)).2]
    rfl

theorem not_mem_of_chars (h : ∀ c ∈ cs, isNumeralChar c) {words : List String}
    (hwords : ∀ w ∈ words, w.toList.all isNumeralChar = false) :
    words.contains (String.ofList cs) = false := by
  rw [← Bool.not_eq_true, contains_iff_mem]
  intro hmem
  have hall := hwords _ hmem
  rw [String.toList_ofList, all_eq_true.mpr h] at hall
  cases hall

theorem splitOnceList_eq_none {sep : Char} (h : ∀ c ∈ cs, c ≠ sep) :
    splitOnceList sep cs = none := by
  induction cs with
  | nil => rfl
  | cons c cs ih =>
    rw [forall_mem_cons] at h
    rw [splitOnceList, if_neg h.1, ih h.2]
    rfl

theorem unsigned_digits {d : Nat} (hd : d < 10) (xs : List Char) :
    Form.unsigned (Nat.digitChar d :: xs) = Nat.digitChar d :: xs := by
  have htable : ∀ d < 10, Nat.digitChar d ≠ '+' ∧ Nat.digitChar d ≠ '-' := by decide
  obtain ⟨hplus, hminus⟩ := htable d hd
  rw [Form.unsigned]
  · intro cs heq
    exact hplus (cons.inj heq).1
  · intro cs heq
    exact hminus (cons.inj heq).1

theorem Numeral.unsigned (h : Numeral cs n) :
    ∃ ds : List Nat, Form.unsigned cs = ds.map Nat.digitChar ∧ (∀ d ∈ ds, d < 10) ∧
      (ds = [0] ∨ ∃ d rest, ds = d :: rest ∧ 0 < d) := by
  obtain ⟨ds, hlt, hhead, -, hspelt⟩ := h.spelt
  refine ⟨ds, ?_, hlt, hhead⟩
  obtain ⟨rfl, -⟩ | ⟨rfl, -⟩ := hspelt
  · cases ds with
    | nil => rfl
    | cons d ds => exact unsigned_digits (hlt d mem_cons_self) _
  · rfl

theorem Numeral.isInt (h : Numeral cs n) : Form.isInt cs := by
  obtain ⟨ds, hunsigned, hlt, hhead⟩ := h.unsigned
  rw [Form.isInt, hunsigned]
  obtain rfl | ⟨d, rest, rfl, hpos⟩ := hhead
  · rfl
  · have htable : ∀ d < 10, 0 < d → Nat.digitChar d ≠ '0' := by decide
    have hascii : ∀ d < 10, isAsciiDigit (Nat.digitChar d) := by decide
    have hne := htable d (hlt d mem_cons_self) hpos
    have hgrouped : Form.isDigitsGrouped ((d :: rest).map Nat.digitChar) := by
      rw [map_cons, Form.isDigitsGrouped, hascii d (hlt d mem_cons_self), Bool.true_and,
        all_eq_true]
      exact forall_mem_digits (by decide) (forall_mem_cons.mp hlt).2
    split
    case h_1 heq => exact absurd (cons.inj heq).1 hne
    case h_2 heq => exact absurd (cons.inj heq).1 hne
    case h_3 heq => exact absurd (cons.inj heq).1 hne
    case h_4 heq => exact absurd (cons.inj heq).1 hne
    case h_5 => rw [hgrouped]; rfl

theorem Numeral.isFloat (h : Numeral cs n) : Form.isFloat cs = false := by
  have hchars := h.chars
  have hpoint : ∀ c ∈ cs, c ≠ '.' := h.forall_mem (by decide)
  obtain ⟨ds, hunsigned, hlt, -⟩ := h.unsigned
  have hdigits : ∀ c ∈ Form.unsigned cs, isNumeralChar c := by
    rw [hunsigned]
    exact forall_mem_digits (by decide) hlt
  have hpointed : Form.isPointed cs = false := by
    rw [Form.isPointed, hunsigned, splitOnceList_eq_none (forall_mem_digits (by decide) hlt)]
  rw [Form.isFloat, hpointed, not_mem_of_chars hdigits (by decide),
    not_mem_of_chars hchars (by decide)]
  · rfl
  · rintro d rest rfl
    exact absurd rfl (hpoint '.' mem_cons_self)

theorem Numeral.withoutLineFeed (h : Numeral cs n) :
    Form.withoutLineFeed (String.ofList cs) = String.ofList cs := by
  have hfree : '\n' ∉ (String.ofList cs).toList := by
    rw [String.toList_ofList]
    exact fun hmem => absurd (h.chars '\n' hmem) (by decide)
  have hends : endsWith (String.ofList cs) "\n" = false := not_endsWith_of_not_mem hfree
  rw [Form.withoutLineFeed, hends]
  rfl

theorem Numeral.resolve (h : Numeral cs n) :
    Schema.workflow.resolve (String.ofList cs) = Tag.int := by
  rw [Schema.resolve, h.withoutLineFeed, String.toList_ofList, h.isFloat, h.isInt,
    not_mem_of_chars h.chars (by decide)]
  rfl

/-! ## Reading -/

theorem groupedDigits?_eq (hlt : ∀ d ∈ ds, d < 10) {last : Bool} {m : Nat} (hne : last ∨ ds ≠ []) :
    groupedDigits? 10 last m (ds.map Nat.digitChar) =
      some (ds.foldl (fun n d => n * 10 + d) m) := by
  have htable : ∀ d < 10, (Nat.digitChar d == '_') = false ∧
      digitValue? (Nat.digitChar d) = some d := by decide
  induction ds generalizing last m with
  | nil =>
    rw [map_nil, groupedDigits?, if_pos (hne.resolve_right (fun h => h rfl))]
    rfl
  | cons d ds ih =>
    rw [forall_mem_cons] at hlt
    obtain ⟨hmark, hvalue⟩ := htable d hlt.1
    rw [map_cons, groupedDigits?, hmark, hvalue]
    simp only [hlt.1, if_true]
    exact ih hlt.2 (.inl rfl)

theorem withoutMarker_ten (cs : List Char) : withoutMarker 10 cs = cs := by
  unfold withoutMarker
  split <;> rfl

/-- What a numeral of so many digits is read as. -/
def withinDigits (count : Nat) (n : Int) : Option Int :=
  if count > maxDecimalDigits then none else some n

theorem readInt?_digits (hlt : ∀ d ∈ ds, d < 10) (hne : ds ≠ []) :
    Text.readInt? 10 (String.ofList (ds.map Nat.digitChar)) =
      withinDigits ds.length (ofDigits 10 ds) := by
  have hchars : ∀ c ∈ ds.map Nat.digitChar, isBlank c = false ∧ c ≠ '-' ∧ c ≠ '+' ∧
      (c != '_') := forall_mem_digits (by decide) hlt
  have htrim : trim (String.ofList (ds.map Nat.digitChar)) =
      String.ofList (ds.map Nat.digitChar) := by
    refine trim_eq_self fun c hc => (hchars c ?_).1
    rwa [String.toList_ofList] at hc
  have hfilter : (ds.map Nat.digitChar).filter (· != '_') = ds.map Nat.digitChar :=
    filter_eq_self.mpr fun c hc => (hchars c hc).2.2.2
  have hread : (if (10 == 10 && decide (((ds.map Nat.digitChar).filter (· != '_')).length >
        maxDecimalDigits)) = true then none
      else (groupedDigits? 10 false 0 (ds.map Nat.digitChar)).map Int.ofNat) =
      withinDigits ds.length (ofDigits 10 ds) := by
    rw [hfilter, length_map, groupedDigits?_eq hlt (.inr hne), withinDigits]
    simp only [beq_self_eq_true, Bool.true_and, decide_eq_true_eq]
    rfl
  rw [Text.readInt?, htrim, String.toList_ofList]
  dsimp only
  split
  case h_1 rest heq => exact absurd rfl (hchars '-' (heq ▸ mem_cons_self)).2.1
  case h_2 rest heq => exact absurd rfl (hchars '+' (heq ▸ mem_cons_self)).2.2.1
  case h_3 => rw [withoutMarker_ten]; exact hread

theorem readUnsigned?_digits (hlt : ∀ d ∈ ds, d < 10)
    (hhead : ds = [0] ∨ ∃ d rest, ds = d :: rest ∧ 0 < d) :
    readUnsigned? (ds.map Nat.digitChar) = withinDigits ds.length (ofDigits 10 ds) := by
  obtain rfl | ⟨d, rest, rfl, hpos⟩ := hhead
  · rfl
  · have htable : ∀ d < 10, 0 < d → Nat.digitChar d ≠ '0' := by decide
    have hne := htable d (hlt d mem_cons_self) hpos
    have hcolon : ((d :: rest).map Nat.digitChar).contains ':' = false := by
      rw [← Bool.not_eq_true, contains_iff_mem]
      exact fun hmem => forall_mem_digits (P := (· ≠ ':')) (by decide) hlt _ hmem rfl
    unfold readUnsigned?
    split
    case h_1 heq => cases heq
    case h_2 heq => exact absurd (List.cons.inj heq).1 hne
    case h_3 heq => exact absurd (List.cons.inj heq).1 hne
    case h_4 heq => exact absurd (List.cons.inj heq).1 hne
    case h_5 heq => exact absurd (List.cons.inj heq).1 hne
    case h_6 =>
      rw [hcolon, if_neg Bool.false_ne_true]
      exact readInt?_digits hlt (cons_ne_nil _ _)

theorem map_withinDigits (count : Nat) (f : Int → Int) (n : Int) :
    (withinDigits count n).map f = withinDigits count (f n) := by
  rw [withinDigits, withinDigits, apply_ite (Option.map f)]
  rfl

theorem Numeral.readInt? (h : Numeral cs n) :
    readInt? (String.ofList cs) = withinDigits (digitCount n) n := by
  have hfilter : (String.ofList cs).toList.filter (· != '_') = cs := by
    rw [String.toList_ofList]
    exact filter_eq_self.mpr (h.forall_mem (by decide))
  obtain ⟨ds, hlt, hhead, hcount, hspelt⟩ := h.spelt
  have hread := readUnsigned?_digits hlt hhead
  rw [Yaml.readInt?, hfilter, ← hcount]
  obtain ⟨rfl, rfl⟩ | ⟨rfl, rfl⟩ := hspelt
  · have hsigned : signed (ds.map Nat.digitChar) = (1, ds.map Nat.digitChar) := by
      have hchars : ∀ c ∈ ds.map Nat.digitChar, c ≠ '-' ∧ c ≠ '+' :=
        forall_mem_digits (by decide) hlt
      unfold signed
      split
      case h_1 heq => exact absurd rfl (hchars '-' (heq ▸ mem_cons_self)).1
      case h_2 heq => exact absurd rfl (hchars '+' (heq ▸ mem_cons_self)).2
      case h_3 => rfl
    rw [hsigned]
    dsimp only
    rw [hread, map_withinDigits, Int.one_mul]
  · rw [signed]
    dsimp only
    rw [hread, map_withinDigits, Int.neg_one_mul]

end FlowLock.Yaml
