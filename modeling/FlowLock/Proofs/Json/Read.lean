import FlowLock.Proofs.Json
import FlowLock.Proofs.Yaml.Integer
import FlowLock.Table

/-!
# Reading JSON text

A reader for JSON text, to say what encoded settings mean to the programs that get them.  A
JSON string is a sequence of UTF-16 units, so two halves that stand side by side in a text are
read as one character.  Numbers are whole here.
-/

namespace FlowLock

open List Text

/-! ## Units -/

namespace Text

/-- The UTF-16 units of a character; a half has its unit. -/
def units (c : Char) : List Nat :=
  if code c < 0x10000 then [code c]
  else [0xd800 + (c.toNat - 0x10000) / 0x400, 0xdc00 + (c.toNat - 0x10000) % 0x400]

def ofUnit (unit : Nat) : Char := if isHalfUnit unit then half unit else Char.ofNat unit

/-- The characters of units: a first and a second half make one character. -/
def ofUnits : List Nat → List Char
  | [] => []
  | [u] => [ofUnit u]
  | u :: v :: us =>
    if 0xd800 ≤ u && u < 0xdc00 && 0xdc00 ≤ v && v < 0xe000 then
      Char.ofNat (0x10000 + (u - 0xd800) * 0x400 + (v - 0xdc00)) :: ofUnits us
    else ofUnit u :: ofUnits (v :: us)

def joined (s : String) : String := String.ofList (ofUnits (s.toList.flatMap units))

/-- The number of a character is its code point, or the unit of the half that it keeps. -/
theorem code_cases (c : Char) : code c = c.toNat ∧ isHalfUnit (code c) = false ∨
      c.toNat = 0x100000 + code c ∧ isHalfUnit (code c) := by
  have hvalid : c.toNat < 0xd800 ∨ 0xdfff < c.toNat ∧ c.toNat < 0x110000 := c.valid
  unfold code halfUnit?
  dsimp only
  split
  · next h =>
    simp only [Bool.and_eq_true, decide_eq_true_eq] at h
    rw [Option.getD_some]
    exact .inr ⟨by omega, h.2⟩
  · rw [Option.getD_none]
    refine .inl ⟨rfl, ?_⟩
    simp only [isHalfUnit, Bool.and_eq_false_iff, decide_eq_false_iff_not]
    omega

theorem ofUnit_code (c : Char) : ofUnit (code c) = c := by
  rcases code_cases c with ⟨hcode, hhalf⟩ | ⟨hcode, hhalf⟩
  · rw [ofUnit, hhalf, if_neg Bool.false_ne_true, hcode, Char.ofNat_toNat]
  · rw [ofUnit, hhalf, if_pos rfl, half, ← hcode, Char.ofNat_toNat]

/-- A character is read from its units, unless they end in a first half and a second one
follows. -/
theorem ofUnits_append {c : Char} {us : List Nat}
    (h : ∀ v ∈ us.head?, ¬ (0xd800 ≤ code c ∧ code c < 0xdc00 ∧ 0xdc00 ≤ v ∧ v < 0xe000)) :
    ofUnits (units c ++ us) = c :: ofUnits us := by
  by_cases hc : code c < 0x10000
  · rw [units, if_pos hc]
    cases us with
    | nil => rw [append_nil, ofUnits, ofUnits, ofUnit_code]
    | cons v us =>
      rw [singleton_append, ofUnits, if_neg, ofUnit_code]
      simpa only [Bool.and_eq_true, decide_eq_true_eq, and_assoc] using h v rfl
  · have hvalid : c.toNat < 0xd800 ∨ 0xdfff < c.toNat ∧ c.toNat < 0x110000 := c.valid
    have hpair : 0x10000 ≤ c.toNat := by
      rcases code_cases c with ⟨hcode, -⟩ | ⟨hcode, -⟩ <;> omega
    have hback : 0x10000 + (0xd800 + (c.toNat - 0x10000) / 0x400 - 0xd800) * 0x400 +
        (0xdc00 + (c.toNat - 0x10000) % 0x400 - 0xdc00) = c.toNat := by omega
    rw [units, if_neg hc, cons_append, singleton_append, ofUnits, if_pos, hback, Char.ofNat_toNat]
    simp only [Bool.and_eq_true, decide_eq_true_eq]
    omega

/-- A text in which no first half of a pair stands right before a second half. -/
def IsWhole (s : String) : Prop :=
  s.toList.IsChain fun c d =>
    ¬ (0xd800 ≤ code c ∧ code c < 0xdc00 ∧ 0xdc00 ≤ code d ∧ code d < 0xe000)

instance (s : String) : Decidable (IsWhole s) := inferInstanceAs (Decidable (List.IsChain _ _))

/-- **A text that splits no pair is read as it is.** -/
theorem joined_of_isWhole {s : String} (h : IsWhole s) : joined s = s := by
  rw [IsWhole] at h
  have hchars : ofUnits (s.toList.flatMap units) = s.toList := by
    generalize s.toList = cs at h
    induction cs with
    | nil => rfl
    | cons c cs ih =>
      rw [flatMap_cons, ofUnits_append, ih h.of_cons]
      intro v hv
      cases cs with
      | nil => cases hv
      | cons d cs =>
        have hvalid : d.toNat < 0xd800 ∨ 0xdfff < d.toNat ∧ d.toNat < 0x110000 := d.valid
        have hpair := (isChain_cons_cons.mp h).1
        rw [flatMap_cons, units] at hv
        split at hv <;> cases hv
        · exact hpair
        · omega
  rw [joined, hchars, String.ofList_toList]

def IsAscii (s : String) : Prop := ∀ c ∈ s.toList, c.toNat < 0x80

instance (s : String) : Decidable (IsAscii s) := inferInstanceAs (Decidable (∀ _ ∈ _, _))

theorem joined_of_ascii {s : String} (h : IsAscii s) : joined s = s := by
  refine joined_of_isWhole (Pairwise.isChain (pairwise_of_forall_mem_list ?_))
  intro c hc d _
  have hlow := h c hc
  rcases code_cases c with ⟨hcode, -⟩ | ⟨hcode, -⟩ <;> omega

theorem isEmpty_joined (s : String) : (joined s).isEmpty = s.isEmpty := by
  have hunits : ∀ us, ofUnits us = [] ↔ us = [] := by
    intro us
    fun_cases ofUnits us <;> simp
  have hchar : ∀ c, units c ≠ [] := by
    intro c
    unfold units
    split <;> exact cons_ne_nil _ _
  rw [Bool.eq_iff_iff, String.isEmpty_iff, String.isEmpty_iff, joined, ← String.toList_eq_nil_iff,
    String.toList_ofList, hunits, flatMap_eq_nil_iff, ← String.toList_eq_nil_iff]
  constructor
  · intro h
    exact eq_nil_iff_forall_not_mem.mpr fun c hc => hchar c (h c hc)
  · intro h
    rw [h]
    exact fun c hc => nomatch hc

end Text

namespace Json

/-! ## Strings -/

/-- The unit that a letter after a backslash stands for. -/
def unescape? : Char → Option Nat
  | '"' => some 0x22
  | '\\' => some 0x5c
  | '/' => some 0x2f
  | 'b' => some 0x8
  | 'f' => some 0xc
  | 'n' => some 0xa
  | 'r' => some 0xd
  | 't' => some 0x9
  | _ => none

/-- The number that hexadecimal digits write. -/
def hexNumber? (ds : List Char) : Option Nat :=
  ds.foldlM (fun n d => (Text.hexValue? d).map fun value => n * 16 + value) 0

/-- The units of a string up to its end, with what comes after it. -/
def readUnits : List Char → Option (List Nat × List Char)
  | [] => none
  | '"' :: cs => some ([], cs)
  | '\\' :: 'u' :: a :: b :: c :: d :: cs => do
    let unit ← hexNumber? [a, b, c, d]
    let (us, rest) ← readUnits cs
    some (unit :: us, rest)
  | '\\' :: letter :: cs => do
    let unit ← unescape? letter
    let (us, rest) ← readUnits cs
    some (unit :: us, rest)
  | c :: cs =>
    if c.toNat < 0x20 || c == '\\' then none
    else do
      let (us, rest) ← readUnits cs
      some (units c ++ us, rest)

def readText (cs : List Char) : Option (String × List Char) := do
  let (us, rest) ← readUnits cs
  some (String.ofList (ofUnits us), rest)

theorem hexValue?_digitChar : ∀ d < 16, hexValue? (Nat.digitChar d) = some d := by decide

theorem hexNumber?_digits {ds : List Nat} (h : ∀ d ∈ ds, d < 16) :
    hexNumber? (ds.map Nat.digitChar) = some (ofDigits 16 ds) := by
  suffices hfrom : ∀ n, (ds.map Nat.digitChar).foldlM
      (fun n d => (hexValue? d).map fun value => n * 16 + value) n =
      some (ds.foldl (fun n d => n * 16 + d) n) from hfrom 0
  intro n
  induction ds generalizing n with
  | nil => rfl
  | cons d ds ih =>
    obtain ⟨hd, hds⟩ := forall_mem_cons.mp h
    rw [map_cons, foldlM_cons, hexValue?_digitChar d hd]
    exact ih hds _

theorem exists_unitDigits {n : Nat} (h : n < 0x10000) :
    ∃ a b c d, (hexPadded 4 n).toList = [a, b, c, d] ∧ hexNumber? [a, b, c, d] = some n := by
  obtain ⟨ds, hds, hlt, rfl, hlength⟩ := @exists_hexPadded 4 n (by decide) h
  obtain ⟨a, b, c, d, rfl⟩ := length_eq_four.mp hlength
  exact ⟨_, _, _, _, hds, hexNumber?_digits hlt⟩

theorem readUnits_unitEscape {n : Nat} (h : n < 0x10000) (cs : List Char) :
    readUnits ((unitEscape n).toList ++ cs) =
      (readUnits cs).map fun read => (n :: read.1, read.2) := by
  obtain ⟨a, b, c, d, hdigits, hnumber⟩ := exists_unitDigits h
  rw [unitEscape, String.toList_append, hdigits]
  change readUnits ('\\' :: 'u' :: a :: b :: c :: d :: cs) = _
  rw [readUnits, hnumber]
  cases readUnits cs <;> rfl

theorem readUnits_short {letter : Char} {unit : Nat} (hletter : letter ≠ 'u')
    (h : unescape? letter = some unit) (cs : List Char) :
    readUnits ('\\' :: letter :: cs) = (readUnits cs).map fun read => (unit :: read.1, read.2) := by
  rw [readUnits, h]
  · cases readUnits cs <;> rfl
  · exact fun _ _ _ _ _ h => absurd h hletter

variable {c : Char}

theorem readUnits_self (hlow : 0x20 ≤ c.toNat) (hquote : c ≠ '"') (hslash : c ≠ '\\')
    (cs : List Char) :
    readUnits (c :: cs) = (readUnits cs).map fun read => (Text.units c ++ read.1, read.2) := by
  rw [readUnits]
  · have hplain : (decide (c.toNat < 0x20) || c == '\\') = false := by simp [hlow, hslash]
    rw [hplain, if_neg Bool.false_ne_true]
    cases readUnits cs <;> rfl
  · exact hquote
  · exact fun _ _ _ _ _ h => absurd h hslash
  · exact fun _ _ h => absurd h hslash

/-- The forms of a character between quotes: one with a letter of its own, itself, or its units. -/
theorem escapeChar_cases (c : Char) : Text.code c < 0x10000 ∧
      ((∃ letter, (escapeChar c).toList = ['\\', letter] ∧ letter ≠ 'u' ∧ letter ≠ '/' ∧
          unescape? letter = some (Text.code c)) ∨
        (escapeChar c).toList = [c] ∧ 0x20 ≤ c.toNat ∧ c.toNat ≤ 0x7e ∧ c ≠ '"' ∧ c ≠ '\\' ∨
        escapeChar c = unitEscape (code c)) ∨
    ¬ code c < 0x10000 ∧ escapeChar c = unitEscape (0xd800 + (c.toNat - 0x10000) / 0x400) ++
        unitEscape (0xdc00 + (c.toNat - 0x10000) % 0x400) := by
  unfold escapeChar
  split
  · next h => obtain rfl := eq_of_beq h; exact .inl ⟨by decide, .inl ⟨'"', by decide⟩⟩
  split
  · next h => obtain rfl := eq_of_beq h; exact .inl ⟨by decide, .inl ⟨'\\', by decide⟩⟩
  split
  · next h => obtain rfl := eq_of_beq h; exact .inl ⟨by decide, .inl ⟨'n', by decide⟩⟩
  split
  · next h => obtain rfl := eq_of_beq h; exact .inl ⟨by decide, .inl ⟨'r', by decide⟩⟩
  split
  · next h => obtain rfl := eq_of_beq h; exact .inl ⟨by decide, .inl ⟨'t', by decide⟩⟩
  split
  · next h =>
    obtain rfl : c = Char.ofNat 0x8 := by rw [← eq_of_beq h, Char.ofNat_toNat]
    exact .inl ⟨by decide, .inl ⟨'b', by decide⟩⟩
  split
  · next h =>
    obtain rfl : c = Char.ofNat 0xc := by rw [← eq_of_beq h, Char.ofNat_toNat]
    exact .inl ⟨by decide, .inl ⟨'f', by decide⟩⟩
  split
  · next hquote hslash _ _ _ _ _ h =>
    simp only [Bool.and_eq_true, decide_eq_true_eq] at h
    refine .inl ⟨?_, .inr (.inl ⟨String.toList_singleton c, h.1, h.2, ?_, ?_⟩)⟩
    · rcases Text.code_cases c with ⟨hcode, -⟩ | ⟨hcode, -⟩ <;> omega
    · exact fun heq => hquote (beq_iff_eq.mpr heq)
    · exact fun heq => hslash (beq_iff_eq.mpr heq)
  split
  · next h => exact .inl ⟨h, .inr (.inr rfl)⟩
  · next h => exact .inr ⟨h, rfl⟩

theorem readUnits_escapeChar (c : Char) (cs : List Char) : readUnits ((escapeChar c).toList ++ cs) =
      (readUnits cs).map fun read => (Text.units c ++ read.1, read.2) := by
  rcases escapeChar_cases c with ⟨hcode, hform⟩ | ⟨hcode, hform⟩
  · have hunits : Text.units c = [Text.code c] := if_pos hcode
    rcases hform with ⟨letter, hform, hletter, -, hunit⟩ | ⟨hform, hlow, -, hquote, hslash⟩ | hform
    · rw [hform, hunits]
      exact readUnits_short hletter hunit cs
    · rw [hform]
      exact readUnits_self hlow hquote hslash cs
    · rw [hform, hunits, readUnits_unitEscape hcode]
      rfl
  · have hvalid : c.toNat < 0xd800 ∨ 0xdfff < c.toNat ∧ c.toNat < 0x110000 := c.valid
    rw [hform, String.toList_append, append_assoc, readUnits_unitEscape (by omega),
      readUnits_unitEscape (by omega), Text.units, if_neg hcode, Option.map_map]
    rfl

/-- **A text reads as its units say**, with what comes after it. -/
theorem readText_quote (s : String) (cs : List Char) :
    ∃ body, (quote s).toList = '"' :: body ∧ readText (body ++ cs) = some (joined s, cs) := by
  have hbody : ∀ xs : List Char,
      readUnits (xs.flatMap (fun c => (escapeChar c).toList) ++ '"' :: cs) =
        some (xs.flatMap Text.units, cs) := by
    intro xs
    induction xs with
    | nil => rfl
    | cons x xs ih =>
      rw [flatMap_cons, append_assoc, readUnits_escapeChar, ih, flatMap_cons]
      rfl
  refine ⟨s.toList.flatMap (fun c => (escapeChar c).toList) ++ ['"'], ?_, ?_⟩
  · rw [quote, String.toList_append, String.toList_append, String.toList_join, flatMap_map]
    rfl
  · rw [readText, append_assoc, singleton_append, hbody]
    rfl

/-! ## Numbers and words -/

def isNumberChar (c : Char) : Bool :=
  isAsciiDigit c || c == '-' || c == '+' || c == '.' || c == 'e' || c == 'E'

/-- The natural number that decimal digits write, with no zero in front of other digits. -/
def natural? (ds : List Char) : Option Nat :=
  if ds.all isAsciiDigit && (ds.length == 1 || ds.head?.any (· != '0')) then
    some (ofDigits 10 (ds.map fun d => d.toNat - '0'.toNat))
  else none

/-- The whole number that some characters write. -/
def integer? : List Char → Option Int
  | '-' :: ds => (natural? ds).map fun n => -(n : Int)
  | ds => (natural? ds).map fun n => (n : Int)

/-- A word or a number at the start of a text. -/
def readWord : List Char → Option (Value × List Char)
  | 'n' :: 'u' :: 'l' :: 'l' :: cs => some (.null, cs)
  | 't' :: 'r' :: 'u' :: 'e' :: cs => some (.bool true, cs)
  | 'f' :: 'a' :: 'l' :: 's' :: 'e' :: cs => some (.bool false, cs)
  | cs => do
    let n ← integer? (cs.takeWhile isNumberChar)
    some (.int n, cs.dropWhile isNumberChar)

/-- What comes after a number does not belong to it. -/
def Stops (cs : List Char) : Prop := ∀ c ∈ cs.head?, isNumberChar c = false

theorem natural?_digits {ds : List Nat} (hlt : ∀ d ∈ ds, d < 10)
    (hhead : ds = [0] ∨ ∃ d rest, ds = d :: rest ∧ 0 < d) :
    natural? (ds.map Nat.digitChar) = some (ofDigits 10 ds) := by
  have hdigit : ∀ d < 10, isAsciiDigit (Nat.digitChar d) ∧
      (Nat.digitChar d).toNat - '0'.toNat = d ∧ (0 < d → Nat.digitChar d ≠ '0') := by decide
  have hall : (ds.map Nat.digitChar).all isAsciiDigit := by
    rw [all_map, all_eq_true]
    exact fun d hd => (hdigit d (hlt d hd)).1
  have hfirst : ((ds.map Nat.digitChar).length == 1 ||
      (ds.map Nat.digitChar).head?.any (· != '0')) := by
    obtain rfl | ⟨d, rest, rfl, hd⟩ := hhead
    · rfl
    · simp [(hdigit d (hlt d mem_cons_self)).2.2 hd]
  have hvalues : (ds.map Nat.digitChar).map (fun d => d.toNat - '0'.toNat) = ds := by
    rw [map_map]
    exact (map_congr_left fun d hd => (hdigit d (hlt d hd)).2.1).trans (map_id ds)
  rw [natural?, hall, hfirst, hvalues]
  rfl

theorem integer?_numeral {cs : List Char} {n : Int} (h : Yaml.Numeral cs n) :
    integer? cs = some n := by
  obtain ⟨ds, hlt, hhead, -, ⟨rfl, rfl⟩ | ⟨rfl, rfl⟩⟩ := h.spelt
  · have hdash : ∀ rest, ds.map Nat.digitChar ≠ '-' :: rest := fun rest heq =>
      Yaml.forall_mem_digits (P := (· ≠ '-')) (by decide) hlt '-' (heq ▸ mem_cons_self) rfl
    rw [integer?, natural?_digits hlt hhead]
    · rfl
    · exact hdash
  · rw [integer?, natural?_digits hlt hhead]
    rfl

theorem readWord_toString (n : Int) {cs : List Char} (h : Stops cs) :
    readWord ((toString n).toList ++ cs) = some (.int n, cs) := by
  have hnumeral := Yaml.numeral_toString n
  have hchars : ∀ c ∈ (toString n).toList, isNumberChar c := hnumeral.forall_mem (by decide)
  have hword : ∀ c rest, (toString n).toList ++ cs = c :: rest → isNumberChar c := by
    intro c rest heq
    cases hn : (toString n).toList with
    | nil => exact absurd hn hnumeral.ne_nil
    | cons d ds =>
      rw [hn] at heq hchars
      obtain ⟨rfl, -⟩ := cons.inj heq
      exact hchars d mem_cons_self
  rw [readWord, takeWhile_append_of_head hchars h, dropWhile_append_of_head hchars h,
    integer?_numeral hnumeral]
  · rfl
  · exact fun rest heq => absurd (hword _ _ heq) (by decide)
  · exact fun rest heq => absurd (hword _ _ heq) (by decide)
  · exact fun rest heq => absurd (hword _ _ heq) (by decide)

/-! ## Sequences -/

def isBlank (c : Char) : Bool := c == ' ' || c == '\n' || c == '\r' || c == '\t'

def skip (cs : List Char) : List Char := cs.dropWhile isBlank

def Blanks (gap : List Char) : Prop := ∀ c ∈ gap, isBlank c = true

section Sequence

variable {α : Type} (item : List Char → Option (α × List Char)) (closing : Char)

def readItems : Nat → List Char → Option (List α × List Char)
  | 0, _ => none
  | n + 1, cs => do
    let (x, rest) ← item cs
    match skip rest with
    | [] => none
    | c :: rest =>
      if c == closing then some ([x], rest)
      else if c == ',' then do
        let (xs, rest) ← readItems n rest
        some (x :: xs, rest)
      else none

def readSequence (cs : List Char) : Option (List α × List Char) :=
  match skip cs with
  | [] => none
  | c :: rest => if c == closing then some ([], rest) else readItems item closing cs.length cs

end Sequence

def readMember (value : List Char → Option (Value × List Char)) (cs : List Char) :
    Option ((String × Value) × List Char) :=
  match skip cs with
  | '"' :: cs => do
    let (key, rest) ← readText cs
    match skip rest with
    | ':' :: rest => do
      let (v, rest) ← value rest
      some ((key, v), rest)
    | _ => none
  | _ => none

/-- The value at the start of a text, with what comes after it.  Values are nested at most as
deep as the number says. -/
def read : Nat → List Char → Option (Value × List Char)
  | 0, _ => none
  | n + 1, cs =>
    match skip cs with
    | '"' :: cs => do
      let (text, rest) ← readText cs
      some (.str text, rest)
    | '[' :: cs => do
      let (xs, rest) ← readSequence (read n) ']' cs
      some (.list xs, rest)
    | '\x7b' :: cs => do
      let (t, rest) ← readSequence (readMember (read n)) '\x7d' cs
      some (.obj t, rest)
    | cs => readWord cs

/-- **The value that a text writes**, with blanks around it. -/
def decode? (text : String) : Option Value :=
  match read (text.length + 1) text.toList with
  | some (v, rest) => if (skip rest).isEmpty then some v else none
  | none => none

/-! ## Blanks -/

variable {gap : List Char}

theorem skip_append (h : Blanks gap) (cs : List Char) : skip (gap ++ cs) = skip cs :=
  dropWhile_append_of_pos h

theorem skip_cons (h : isBlank c = false) (cs : List Char) : skip (c :: cs) = c :: cs :=
  dropWhile_cons_of_neg (by simp [h])

theorem stops_cons (h : isNumberChar c = false) (cs : List Char) : Stops (c :: cs) := by
  rintro _ ⟨⟩
  exact h

theorem stops_append (h : Blanks gap) (hc : isNumberChar c = false) (cs : List Char) :
    Stops (gap ++ c :: cs) := by
  have hblank : ∀ b, isBlank b → isNumberChar b = false := by
    intro b hb
    simp only [isBlank, Bool.or_eq_true, beq_iff_eq] at hb
    obtain ((rfl | rfl) | rfl) | rfl := hb <;> decide
  cases gap with
  | nil => exact stops_cons hc cs
  | cons b gap => exact stops_cons (hblank b (h b mem_cons_self)) _

theorem read_append (h : Blanks gap) (n : Nat) (cs : List Char) :
    read n (gap ++ cs) = read n cs := by
  cases n with
  | zero => rfl
  | succ n => rw [read, read, skip_append h]

theorem readMember_append (value : List Char → Option (Value × List Char)) (h : Blanks gap)
    (cs : List Char) : readMember value (gap ++ cs) = readMember value cs := by
  rw [readMember, readMember, skip_append h]

/-! ## Items are read one after the other -/

/-- A text that is no closing character and has no blanks in front. -/
def Starts (text : List Char) : Prop :=
  ∃ c cs, text = c :: cs ∧ isBlank c = false ∧ c ≠ ']' ∧ c ≠ '\x7d'

theorem exists_intercalate_cons (sep text : List Char) (texts : List (List Char)) :
    ∃ more, sep.intercalate (text :: texts) = text ++ more := by
  cases texts with
  | nil => exact ⟨[], by rw [intercalate_singleton, append_nil]⟩
  | cons text' texts => exact ⟨_, by rw [intercalate_cons_cons, append_assoc]⟩

theorem length_le_intercalate (sep : List Char) {texts : List (List Char)}
    (h : ∀ text ∈ texts, Starts text) : texts.length ≤ (sep.intercalate texts).length := by
  induction texts with
  | nil => exact Nat.zero_le _
  | cons text texts ih =>
    obtain ⟨⟨c, cs, rfl, -⟩, htexts⟩ := forall_mem_cons.mp h
    specialize ih htexts
    cases texts with
    | nil => simp [intercalate_singleton]
    | cons text' texts =>
      rw [intercalate_cons_cons]
      simp only [length_append, length_cons] at ih ⊢
      omega

section

variable {α : Type} {item : List Char → Option (α × List Char)} {closing : Char}

/-- An item is read from its text, whatever does not belong to it comes next. -/
def ReadsFrom (item : List Char → Option (α × List Char)) (text : List Char) (x : α) : Prop :=
  ∀ rest, Stops rest → item (text ++ rest) = some (x, rest)

variable (hclosing : closing = ']' ∨ closing = '\x7d')
  (hitem : ∀ gap cs, Blanks gap → item (gap ++ cs) = item cs) {trail gap : List Char}
  {texts : List (List Char)}
include hclosing

theorem skip_closing (htrail : Blanks trail) (rest : List Char) :
    skip (trail ++ closing :: rest) = closing :: rest ∧ Stops (trail ++ closing :: rest) ∧
      closing ≠ ',' := by
  obtain ⟨hblank, hnumber, hcomma⟩ : isBlank closing = false ∧ isNumberChar closing = false ∧
      closing ≠ ',' := by
    obtain rfl | rfl := hclosing <;> decide
  exact ⟨by rw [skip_append htrail, skip_cons hblank], stops_append htrail hnumber rest, hcomma⟩

omit hclosing
include hitem

theorem readItems_append (n : Nat) (hgap : Blanks gap) (cs : List Char) :
    readItems item closing n (gap ++ cs) = readItems item closing n cs := by
  cases n with
  | zero => rfl
  | succ n => rw [readItems, readItems, hitem gap cs hgap]

include hclosing

theorem readItems_eq {xs : List α} (h : Forall₂ (ReadsFrom item) texts xs) (hne : texts ≠ [])
    (hgap : Blanks gap) (htrail : Blanks trail) (rest : List Char) {n : Nat}
    (hn : texts.length ≤ n) :
    readItems item closing n ((',' :: gap).intercalate texts ++ (trail ++ closing :: rest)) =
      some (xs, rest) := by
  obtain ⟨hskip, hstops, hcomma⟩ := skip_closing hclosing htrail rest
  induction h generalizing n with
  | nil => exact absurd rfl hne
  | @cons text x texts xs htext htexts ih =>
    obtain ⟨n, rfl⟩ : ∃ m, n = m + 1 := ⟨n - 1, by simp at hn; omega⟩
    cases htexts with
    | nil =>
      rw [readItems, intercalate_singleton, htext _ hstops]
      simp [hskip]
    | @cons text' x' texts' xs' htext' htexts' =>
      have hmore := ih (cons_ne_nil _ _) (Nat.le_of_succ_le_succ hn)
      rw [readItems, intercalate_cons_cons, append_assoc, append_assoc,
        cons_append, htext _ (stops_cons (by decide) _)]
      simp only [Option.bind_eq_bind, Option.bind_some,
        skip_cons (by decide : isBlank ',' = false), beq_false_of_ne hcomma.symm,
        Bool.false_eq_true, if_false, beq_self_eq_true, if_true,
        readItems_append hitem n hgap, hmore]

theorem readSequence_eq {xs : List α} (h : Forall₂ (ReadsFrom item) texts xs)
    (hstarts : ∀ text ∈ texts, Starts text) (hne : texts ≠ []) {lead : List Char}
    (hlead : Blanks lead) (hgap : Blanks gap) (htrail : Blanks trail) (rest : List Char) :
    readSequence item closing (lead ++ ((',' :: gap).intercalate texts ++
      (trail ++ closing :: rest))) = some (xs, rest) := by
  obtain ⟨text, texts, rfl⟩ := exists_cons_of_ne_nil hne
  obtain ⟨c, cs, hc, hblank, hlist, hobject⟩ := hstarts text mem_cons_self
  have hopen : (c == closing) = false := by
    obtain rfl | rfl := hclosing
    · exact beq_false_of_ne hlist
    · exact beq_false_of_ne hobject
  have hlength := length_le_intercalate (',' :: gap) hstarts
  obtain ⟨more, hmore⟩ := exists_intercalate_cons (',' :: gap) text texts
  have hskip : skip (lead ++ ((',' :: gap).intercalate (text :: texts) ++
      (trail ++ closing :: rest))) = c :: (cs ++ (more ++ (trail ++ closing :: rest))) := by
    rw [skip_append hlead, hmore, hc, append_assoc, cons_append, skip_cons hblank]
  rw [readSequence, hskip]
  dsimp only
  rw [hopen, if_neg Bool.false_ne_true, readItems_append hitem _ hlead]
  refine readItems_eq hclosing hitem h hne hgap htrail rest (hlength.trans ?_)
  rw [length_append, length_append]
  omega

end

end Json

end FlowLock
