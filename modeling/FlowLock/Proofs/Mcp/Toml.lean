import FlowLock.Proofs.Import.Digest
import FlowLock.Proofs.LockFile.RoundTrip
import FlowLock.Proofs.Mcp.Render

/-!
# Reading TOML text

A reader for TOML text, to say what the configuration of servers means to the agents that get it.
It is for the part of the language that configurations are written in: tables with a header, and
settings that are strings, whole numbers, truth values, lists and inline tables, with the blanks
and line ends that belong there.  What it reads means the same in all of TOML.
-/

namespace FlowLock

open Json List Text Table Value

namespace Toml

/-! ## Strings, words and keys -/

/-- A character that stands for itself between quotes. -/
def isPlain (c : Char) : Bool :=
  (c == '\t' || 0x20 ≤ c.toNat && c.toNat != 0x7f) && c != '"' && c != '\\' &&
    Text.code c == c.toNat

def unescape? (letter : Char) : Option Char :=
  if letter == '/' then none else (Json.unescape? letter).map Char.ofNat

def scalar? (n : Nat) : Option Char := if Text.isHalfUnit n then none else some (Char.ofNat n)

/-- The characters of a string up to its end, with what comes after it. -/
def readChars : List Char → Option (List Char × List Char)
  | [] => none
  | '"' :: cs => some ([], cs)
  | '\\' :: 'u' :: a :: b :: c :: d :: cs => do
    let x ← (hexNumber? [a, b, c, d]).bind scalar?
    (readChars cs).map fun read => (x :: read.1, read.2)
  | '\\' :: letter :: cs => do
    let x ← unescape? letter
    (readChars cs).map fun read => (x :: read.1, read.2)
  | c :: cs => if isPlain c then (readChars cs).map fun read => (c :: read.1, read.2) else none

def readString (cs : List Char) : Option (String × List Char) :=
  (readChars cs).map fun read => (String.ofList read.1, read.2)

def isBare (c : Char) : Bool :=
  isAsciiLetter c || isAsciiDigit c || c == '_' || c == '-'

def readWord (cs : List Char) : Option (List Char × List Char) :=
  if (cs.takeWhile isBare).isEmpty then none
  else some (cs.takeWhile isBare, cs.dropWhile isBare)

def readKey : List Char → Option (String × List Char)
  | '"' :: cs => readString cs
  | cs => (readWord cs).map fun read => (String.ofList read.1, read.2)

/-! ## Values -/

def wordValue? : List Char → Option Value
  | ['t', 'r', 'u', 'e'] => some (.bool true)
  | ['f', 'a', 'l', 's', 'e'] => some (.bool false)
  | word => (integer? word).map Value.int

/-- Items up to the text that closes them, with a separator between two of them. -/
def readItems {α : Type} (item : List Char → Option (α × List Char))
    (separator closing : List Char) : Nat → List Char → Option (List α × List Char)
  | 0, _ => none
  | n + 1, cs => do
    let (x, rest) ← item cs
    if closing.isPrefixOf rest then some ([x], rest.drop closing.length)
    else if separator.isPrefixOf rest then
      (readItems item separator closing n (rest.drop separator.length)).map fun read =>
        (x :: read.1, read.2)
    else none

def readEntry (value : List Char → Option (Value × List Char)) (cs : List Char) :
    Option ((String × Value) × List Char) := do
  let (key, rest) ← readKey cs
  match rest with
  | ' ' :: '=' :: ' ' :: rest => (value rest).map fun read => ((key, read.1), read.2)
  | _ => none

/-- The value at the start of a text, with what comes after it.  Values are nested at most as
deep as the number says. -/
def read : Nat → List Char → Option (Value × List Char)
  | 0, _ => none
  | _ + 1, '"' :: cs => (readString cs).map fun read => (.str read.1, read.2)
  | _ + 1, '[' :: ']' :: cs => some (.list [], cs)
  | n + 1, '[' :: '\n' :: ' ' :: ' ' :: cs =>
    (readItems (read n) [',', '\n', ' ', ' '] [',', '\n', ']'] (cs.length + 1) cs).map fun read =>
      (.list read.1, read.2)
  | _ + 1, '\x7b' :: ' ' :: ' ' :: '\x7d' :: cs => some (.obj [], cs)
  | n + 1, '\x7b' :: ' ' :: cs => do
    let (t, rest) ← readItems (readEntry (read n)) [',', ' '] [' ', '\x7d'] (cs.length + 1) cs
    if (keys t).Nodup then some (.obj t, rest) else none
  | _ + 1, cs => do
    let (word, rest) ← readWord cs
    (wordValue? word).map fun v => (v, rest)

/-! ## Documents -/

/-- A table of a document: where it is, and the settings that stand below its header. -/
abbrev Section := List String × Table Value

def readLine (cs : List Char) : Option ((String × Value) × List Char) :=
  readEntry (read cs.length) cs

/-- The settings below a header, up to an empty line. -/
def readEntries : Nat → List Char → Option (Table Value × List Char)
  | 0, _ => none
  | _ + 1, [] => some ([], [])
  | _ + 1, '\n' :: cs => some ([], cs)
  | n + 1, cs => do
    let (e, rest) ← readLine cs
    match rest with
    | '\n' :: rest => (readEntries n rest).map fun read => (e :: read.1, read.2)
    | _ => none

def readSections : Nat → List Char → Option (List Section)
  | _ + 1, [] => some []
  | n + 1, '[' :: cs => do
    let (path, rest) ← readItems readKey ['.'] [']'] (cs.length + 1) cs
    match rest with
    | '\n' :: rest => do
      let (t, rest) ← readEntries (rest.length + 1) rest
      (readSections n rest).map ((path, t) :: ·)
    | _ => none
  | _, _ => none

def addBelow (key : String) (s : Section) : Table (List Section) → Table (List Section)
  | [] => [(key, [s])]
  | (key', ss) :: groups =>
    if key = key' then (key, s :: ss) :: groups else (key, [s]) :: (key', ss) :: groups

/-- The sections below each key, seen from there.  Those below one key stand together. -/
def group : List Section → Table (List Section)
  | [] => []
  | ([], _) :: ss => group ss
  | (key :: path, t) :: ss => addBelow key (path, t) (group ss)

/-- The table that sections make: the settings of the section at its own place, then a table for
each key with sections below it.  No section and no key is there twice. -/
def assemble : Nat → List Section → Option (Table Value)
  | 0, _ => none
  | n + 1, ss => do
    let own := ss.filter (·.1.isEmpty)
    let tables ← (group ss).mapM fun g => (assemble n g.2).map fun t => (g.1, obj t)
    let table := own.flatMap (·.2) ++ tables
    if own.length ≤ 1 ∧ (keys table).Nodup then some table else none

/-- **The table that a document writes.** -/
def decode? (text : String) : Option (Table Value) := do
  let ss ← readSections (text.length + 1) text.toList
  assemble text.length ss

/-! ## Strings are read again -/

/-- A text of characters that one unit writes. -/
def IsBasic (s : String) : Prop := ∀ c ∈ s.toList, c.toNat < 0x10000

instance (s : String) : Decidable (IsBasic s) := inferInstanceAs (Decidable (∀ _ ∈ _, _))

theorem readChars_plain {c : Char} (h : isPlain c) (cs : List Char) :
    readChars (c :: cs) = (readChars cs).map fun read => (c :: read.1, read.2) := by
  obtain ⟨hquote, hslash⟩ : c ≠ '"' ∧ c ≠ '\\' := by
    simp only [isPlain, Bool.and_eq_true, bne_iff_ne] at h
    exact ⟨h.1.1.2, h.1.2⟩
  rw [readChars, if_pos h]
  · exact hquote
  · exact fun _ _ _ _ _ h => absurd h hslash
  · exact fun _ _ h => absurd h hslash

theorem readChars_escapeChar {c : Char} (h : c.toNat < 0x10000) (cs : List Char) :
    readChars ((escapeChar c).toList ++ cs) =
      (readChars cs).map fun read => (c :: read.1, read.2) := by
  obtain ⟨hcode, hhalf⟩ : Text.code c = c.toNat ∧ Text.isHalfUnit c.toNat = false := by
    rcases Text.code_cases c with ⟨hcode, hhalf⟩ | ⟨hcode, -⟩
    · exact ⟨hcode, hcode ▸ hhalf⟩
    · omega
  rcases escapeChar_cases c with ⟨-, hform⟩ | ⟨hhigh, -⟩
  · rw [hcode] at hform
    rcases hform with ⟨letter, hform, hletter, hslash, hunit⟩ | ⟨hform, hlow, hhigh, hne⟩ | hform
    · have hchar : unescape? letter = some c := by
        rw [unescape?, beq_false_of_ne hslash, if_neg Bool.false_ne_true, hunit, Option.map_some,
          Char.ofNat_toNat]
      rw [hform]
      change readChars ('\\' :: letter :: cs) = _
      rw [readChars, hchar]
      · rfl
      · exact fun _ _ _ _ _ h => absurd h hletter
    · rw [hform]
      refine readChars_plain ?_ cs
      have hdel : c.toNat ≠ 0x7f := by omega
      simp [isPlain, hlow, hdel, hne, hcode]
    · obtain ⟨a, b, d, e, hdigits, hnumber⟩ := exists_unitDigits h
      rw [hform, unitEscape, String.toList_append, hdigits]
      change readChars ('\\' :: 'u' :: a :: b :: d :: e :: cs) = _
      rw [readChars, hnumber, Option.bind_some, scalar?, hhalf, if_neg Bool.false_ne_true,
        Char.ofNat_toNat]
      rfl
  · omega

theorem readString_flatMap {written : Char → List Char} {s : String}
    (h : ∀ c ∈ s.toList, ∀ cs, readChars (written c ++ cs) =
      (readChars cs).map fun read => (c :: read.1, read.2)) (cs : List Char) :
    readString (s.toList.flatMap written ++ '"' :: cs) = some (s, cs) := by
  have hchars : ∀ xs : List Char, (∀ c ∈ xs, c ∈ s.toList) →
      readChars (xs.flatMap written ++ '"' :: cs) = some (xs, cs) := by
    intro xs hxs
    induction xs with
    | nil => rfl
    | cons x xs ih =>
      obtain ⟨hx, hxs⟩ := forall_mem_cons.mp hxs
      rw [flatMap_cons, append_assoc, h x hx, ih hxs]
      rfl
  rw [readString, hchars s.toList fun _ => id, Option.map_some, String.ofList_toList]

theorem readString_quote {s : String} (h : IsBasic s) :
    ∃ body, (quote s).toList = '"' :: body ∧
      ∀ cs, readString (body ++ cs) = some (s, cs) := by
  refine ⟨s.toList.flatMap (fun c => (escapeChar c).toList) ++ ['"'], ?_, fun cs => ?_⟩
  · rw [quote, String.toList_append, String.toList_append, String.toList_join, flatMap_map]
    rfl
  · rw [append_assoc]
    exact readString_flatMap (fun c hc => readChars_escapeChar (h c hc)) cs

/-! ## What is read from a text -/

section

variable {α : Type} {item : List Char → Option (α × List Char)}

/-- What comes next does not belong to a word. -/
def Free (rest : List Char) : Prop := ∀ c ∈ rest.head?, isBare c = false

/-- An item is read from its text, whatever does not belong to it comes next. -/
def Reads (item : List Char → Option (α × List Char)) (text : List Char) (x : α) : Prop :=
  ∀ rest, Free rest → item (text ++ rest) = some (x, rest)

theorem free_cons {c : Char} (h : isBare c = false) (cs : List Char) : Free (c :: cs) := by
  rintro _ ⟨⟩
  exact h

theorem reads_word {word : List Char} (hne : word ≠ []) (h : ∀ c ∈ word, isBare c) :
    Reads readWord word word := by
  intro rest hrest
  rw [readWord, takeWhile_append_of_head h hrest, dropWhile_append_of_head h hrest,
    isEmpty_eq_false_iff.mpr hne, if_neg Bool.false_ne_true]

/-- **Items are read again** from their texts with separators between them. -/
theorem readItems_eq {separator closing : List Char} (hlength : 0 < separator.length)
    (hfree : ∀ cs, Free (separator ++ cs) ∧ Free (closing ++ cs))
    (hdiffer : ∀ cs, ¬ closing <+: separator ++ cs) {texts : List (List Char)}
    {xs : List α} (h : Forall₂ (Reads item) texts xs) (hne : texts ≠ []) (rest : List Char)
    {n : Nat} (hn : (separator.intercalate texts ++ (closing ++ rest)).length < n) :
    readItems item separator closing n (separator.intercalate texts ++ (closing ++ rest)) =
      some (xs, rest) := by
  induction h generalizing n with
  | nil => exact absurd rfl hne
  | @cons text x texts xs htext htexts ih =>
    rcases n with _ | n
    · omega
    cases htexts with
    | nil =>
      rw [intercalate_singleton, readItems, htext _ (hfree rest).2]
      simp
    | cons _ _ =>
      rw [intercalate_cons_cons] at hn ⊢
      simp only [length_append] at hn
      have hmore := @ih (cons_ne_nil _ _) n (by simp only [length_append]; omega)
      rw [append_assoc, append_assoc, readItems, htext _ (hfree _).1]
      simp [hdiffer, hmore]

end

/-! ## Keys and entries are read again -/

variable {key : String}

theorem reads_quote (h : IsBasic key) : Reads readKey (quote key).toList key := by
  obtain ⟨body, hbody, hread⟩ := readString_quote h
  rw [hbody]
  exact fun rest _ => hread rest

theorem reads_plain (h : ∀ c ∈ key.toList, isPlain c) :
    Reads readKey ('"' :: (key.toList ++ ['"'])) key := by
  intro rest _
  have hread := @readString_flatMap (fun c => [c]) key (fun c hc => readChars_plain (h c hc)) rest
  rw [flatMap_singleton'] at hread
  rw [cons_append, append_assoc]
  exact hread

theorem reads_bare (h : Mcp.isBareKey key) : Reads readKey key.toList key := by
  obtain ⟨hne, hall⟩ := (Bool.and_eq_true _ _).mp h
  have hchars : ∀ c ∈ key.toList, isBare c := all_eq_true.mp hall
  have hword := reads_word (fun hnil => by
    rw [String.toList_eq_nil_iff.mp hnil] at hne
    cases hne) hchars
  intro rest hrest
  rw [readKey, hword rest hrest, Option.map_some, String.ofList_toList]
  intro cs heq
  rcases append_eq_cons_iff.mp heq with ⟨hnil, -⟩ | ⟨_, hkey, -⟩
  · rw [String.toList_eq_nil_iff.mp hnil] at hne
    cases hne
  · exact absurd (hchars '"' (hkey ▸ mem_cons_self)) (by decide)

theorem reads_entry {value : List Char → Option (Value × List Char)} {ktext vtext : List Char}
    {v : Value} (hkey : Reads readKey ktext key) (hvalue : Reads value vtext v) :
    Reads (readEntry value) (ktext ++ ' ' :: '=' :: ' ' :: vtext) (key, v) := by
  intro rest hrest
  rw [readEntry, append_assoc, cons_append, hkey _ (free_cons rfl _)]
  change Option.map _ (value (vtext ++ rest)) = _
  rw [hvalue rest hrest]
  rfl

end Toml

/-! ## Values are read again -/

/-- The values that TOML has a form for: numbers that are not too long to be written, texts that
are written without pairs of units, and lists and tables of such values. -/
inductive Value.IsToml : Value → Prop
  | bool (b : Bool) : IsToml (.bool b)
  | int {n : Int} (h : Yaml.digitCount n ≤ maxDecimalDigits) : IsToml (.int n)
  | str {s : String} (h : Toml.IsBasic s) : IsToml (.str s)
  | list {xs : List Value} (h : ∀ x ∈ xs, IsToml x) : IsToml (.list xs)
  | obj {t : Table Value} (hkeys : ∀ e ∈ t, Toml.IsBasic e.1) (hnodup : (keys t).Nodup)
      (h : ∀ e ∈ t, IsToml e.2) : IsToml (.obj t)

namespace Value.IsToml

variable {v : Value}

theorem of_obj {t : Table Value} (h : (Value.obj t).IsToml) :
    (∀ e ∈ t, Toml.IsBasic e.1) ∧ (keys t).Nodup ∧ ∀ e ∈ t, e.2.IsToml := by
  generalize hv : Value.obj t = v at h
  cases h with
  | obj hkeys hnodup h => exact obj_injective hv ▸ ⟨hkeys, hnodup, h⟩
  | _ => cases hv

theorem isFinite_eq (h : v.IsToml) : v.isFinite := by
  induction h with
  | bool | int | str => rfl
  | @list xs h ih =>
    clear h
    induction xs with
    | nil => rfl
    | cons x xs ihxs =>
      obtain ⟨hx, hxs⟩ := forall_mem_cons.mp ih
      exact (Bool.and_eq_true _ _).mpr ⟨hx, ihxs hxs⟩
  | @obj t hkeys hnodup h ih =>
    clear hkeys hnodup h
    induction t with
    | nil => rfl
    | cons e t iht =>
      obtain ⟨he, ht⟩ := forall_mem_cons.mp ih
      exact (Bool.and_eq_true _ _).mpr ⟨he, iht ht⟩

theorem isWhole_of_code {s : String} (h : ∀ c ∈ s.toList, code c = c.toNat) :
    IsWhole s := by
  refine Pairwise.isChain (pairwise_of_forall_mem_list fun c hc d _ => ?_)
  have hvalid : c.toNat < 0xd800 ∨ 0xdfff < c.toNat ∧ c.toNat < 0x110000 := c.valid
  have hcode := h c hc
  omega

theorem isPayload (h : v.IsToml) : v.IsPayload := by
  have hbasic : ∀ {s}, Toml.IsBasic s → IsWhole s := fun h => isWhole_of_code fun c hc => by
    have hlow := h c hc
    rcases code_cases c with ⟨hcode, -⟩ | ⟨hcode, -⟩ <;> omega
  induction h with
  | bool b => exact .bool b
  | int h => exact .int h
  | str h => exact .str (hbasic h)
  | list _ ih => exact .list ih
  | obj hkeys _ _ ih => exact .obj (fun e he => hbasic (hkeys e he)) ih

end Value.IsToml

namespace Toml

open Mcp (tomlValue tomlList)

theorem tomlValue_list (xs : List Value) : tomlValue (.list xs) = tomlList (xs.map tomlValue) := by
  rw [tomlValue, Mcp.tomlItems_eq_map]

def entryText (key : String) (v : Value) : String := key ++ " = " ++ tomlValue v

theorem toList_entryText (key : String) (v : Value) :
    (entryText key v).toList = key.toList ++ ' ' :: '=' :: ' ' :: (tomlValue v).toList := by
  rw [entryText, String.toList_append, String.toList_append, append_assoc]
  rfl

theorem tomlValue_obj (t : Table Value) : tomlValue (.obj t) =
      "\x7b " ++ ", ".intercalate (t.map fun e => entryText (quote e.1) e.2) ++ " \x7d" := by
  rw [obj, tomlValue, Mcp.tomlEntries_eq_map, map_map]
  rfl

theorem toList_tomlValue_obj (t : Table Value) :
    (tomlValue (.obj t)).toList = '\x7b' :: ' ' :: ([',', ' '].intercalate
      ((t.map fun e => entryText (quote e.1) e.2).map String.toList) ++ [' ', '\x7d']) := by
  rw [tomlValue_obj, String.toList_append, String.toList_append, String.toList_intercalate]
  rfl

variable {items : List String}

theorem toList_tomlList (h : items ≠ []) :
    (tomlList items).toList = '[' :: (['\n', ' ', ' '] ++ ([',', '\n', ' ', ' '].intercalate
      (items.map String.toList) ++ [',', '\n', ']'])) := by
  have hlines : items.flatMap (fun item => ("  " ++ item ++ ",\n").toList) = [' ', ' '] ++
      ([',', '\n', ' ', ' '].intercalate (items.map String.toList) ++ [',', '\n']) := by
    induction items with
    | nil => exact absurd rfl h
    | cons item items ih =>
      cases items with
      | nil => simp
      | cons next items =>
        rw [flatMap_cons, ih (cons_ne_nil _ _)]
        simp [intercalate_cons_cons]
  rw [tomlList, isEmpty_eq_false_iff.mpr h, if_neg Bool.false_ne_true, String.toList_append,
    String.toList_append, String.toList_join, flatMap_map, hlines]
  simp

theorem length_lt_tomlList {item : String} (h : item ∈ items) :
    item.length < (tomlList items).length := by
  have hlines := (Within.join (mem_map_of_mem (f := fun item => "  " ++ item ++ ",\n")
    h)).length_le
  have hopen : "[\n".length = 2 := rfl
  rw [tomlList, isEmpty_eq_false_iff.mpr (ne_nil_of_mem h), if_neg Bool.false_ne_true]
  simp only [String.length_append] at hlines ⊢
  omega

theorem length_lt_tomlValue_obj {t : Table Value} {e : String × Value} (h : e ∈ t) :
    (tomlValue e.2).length < (tomlValue (.obj t)).length := by
  have hentries := (Within.intercalate ", " (mem_map_of_mem
    (f := fun e => entryText (quote e.1) e.2) h)).length_le
  have hopen : "\x7b ".length = 2 := rfl
  rw [tomlValue_obj]
  simp only [entryText, String.length_append] at hentries ⊢
  omega

variable {v : Value}

theorem read_word {word : List Char} (hne : word ≠ []) (h : ∀ c ∈ word, isBare c)
    (hv : wordValue? word = some v) (n : Nat) : Reads (read (n + 1)) word v := by
  intro rest hrest
  obtain ⟨c, cs, rfl⟩ := exists_cons_of_ne_nil hne
  have hc := h c mem_cons_self
  have hother : ∀ {d cs'}, isBare d = false → c :: cs ++ rest ≠ d :: cs' := by
    rintro d cs' hd heq
    rw [(cons.inj heq).1, hd] at hc
    cases hc
  rw [read, reads_word hne h rest hrest, Option.bind_eq_bind, Option.bind_some]
  · dsimp only
    rw [hv]
    rfl
  all_goals exact fun _ => hother rfl

/-- **Values are read again.** -/
theorem reads_tomlValue (hv : v.IsToml) {n : Nat} (hn : (tomlValue v).length ≤ n) :
    Reads (read (n + 1)) (tomlValue v).toList v := by
  induction hv generalizing n with
  | bool b => cases b <;> exact read_word (by decide) (by decide) rfl n
  | @int m =>
    have hnumeral := Yaml.numeral_toString m
    refine read_word hnumeral.ne_nil (hnumeral.forall_mem (by decide)) ?_ n
    rw [wordValue?, integer?_numeral hnumeral]
    · rfl
    · exact fun heq => absurd (hnumeral.chars 't' (heq ▸ by decide)) (by decide)
    · exact fun heq => absurd (hnumeral.chars 'f' (heq ▸ by decide)) (by decide)
  | @str s h =>
    obtain ⟨body, hbody, hread⟩ := readString_quote h
    intro rest _
    change read (n + 1) ((quote s).toList ++ rest) = _
    rw [hbody, cons_append, read, hread]
    rfl
  | @list xs hxs ih =>
    intro rest _
    rw [tomlValue_list] at hn ⊢
    by_cases hne : xs = []
    · subst hne
      rfl
    have hread : Forall₂ (Reads (read n)) ((xs.map tomlValue).map String.toList) xs := by
      rw [map_map, forall₂_map_left_iff, forall₂_same]
      intro x hx
      have hlength := length_lt_tomlList (mem_map_of_mem (f := tomlValue) hx)
      rcases n with _ | n
      · omega
      exact ih x hx (by omega)
    have hitems := @readItems_eq _ _ [',', '\n', ' ', ' '] [',', '\n', ']'] (by decide)
      (fun _ => ⟨free_cons rfl _, free_cons rfl _⟩) (by simp) _ _ hread (by simpa using hne) rest _
      (Nat.lt_succ_self _)
    rw [toList_tomlList (by simpa using hne), cons_append, append_assoc, append_assoc]
    exact congrArg (Option.map _) hitems
  | @obj t hkeys hnodup ht ih =>
    intro rest _
    by_cases hne : t = []
    · subst hne
      rfl
    have hread : Forall₂ (Reads (readEntry (read n)))
        ((t.map fun e => entryText (quote e.1) e.2).map String.toList) t := by
      rw [map_map, forall₂_map_left_iff, forall₂_same]
      intro e he
      have hlength := length_lt_tomlValue_obj he
      rcases n with _ | n
      · omega
      rw [Function.comp_apply, toList_entryText]
      exact reads_entry (reads_quote (hkeys e he)) (ih e he (by omega))
    have hitems := @readItems_eq _ _ [',', ' '] [' ', '\x7d'] (by decide)
      (fun _ => ⟨free_cons rfl _, free_cons rfl _⟩) (by simp) _ _ hread (by simpa using hne) rest _
      (Nat.lt_succ_self _)
    rw [toList_tomlValue_obj, cons_append, cons_append, append_assoc]
    generalize [',', ' '].intercalate _ ++ _ = text at hitems ⊢
    rw [read]
    · exact (congrArg (Option.bind · _) hitems).trans (if_pos hnodup)
    · rintro cs rfl
      cases hitems

/-! ## Sections are read again -/

theorem reads_line {ktext key : String} (hkey : Reads readKey ktext.toList key) (hv : v.IsToml) :
    Reads readLine (entryText ktext v).toList (key, v) := by
  intro rest hrest
  obtain ⟨n, hlength, hn⟩ : ∃ n, ((entryText ktext v).toList ++ rest).length = n + 1 ∧
      (tomlValue v).length ≤ n := by
    refine ⟨((entryText ktext v).toList ++ rest).length - 1, ?_, ?_⟩ <;>
    · simp only [toList_entryText, length_append, length_cons, String.length_toList]
      omega
  rw [readLine, hlength, toList_entryText]
  exact reads_entry hkey (reads_tomlValue hv hn) rest hrest

theorem readEntries_eq {lines : List (List Char)} {t : Table Value}
    (h : Forall₂ (Reads readLine) lines t)
    {tail rest : List Char} (htail : tail = [] ∧ rest = [] ∨ tail = '\n' :: rest) {n : Nat}
    (hn : (Yaml.lineText lines ++ tail).length < n) :
    readEntries n (Yaml.lineText lines ++ tail) = some (t, rest) := by
  rcases n with _ | n
  · omega
  induction h generalizing n with
  | nil => rcases htail with ⟨rfl, rfl⟩ | rfl <;> rfl
  | @cons line e lines t hline _ ih =>
    rw [Yaml.lineText_cons, append_assoc, cons_append] at hn ⊢
    simp only [length_append, length_cons] at hn ih
    rcases n with _ | n
    · omega
    have hread := hline ('\n' :: (Yaml.lineText lines ++ tail)) (free_cons rfl _)
    rw [readEntries, hread]
    · exact congrArg (Option.map _) (ih n (by omega))
    · intro heq
      rw [heq] at hread
      cases hread
    · intro cs heq
      rw [heq] at hread
      cases hread

/-- A section as it is written: the text of its header, how its keys are written, and what is
meant. -/
structure Block where
  header : String
  keyText : String → String
  path : List String
  settings : Table Value

namespace Block

def lines (b : Block) : List String :=
  b.header :: b.settings.map fun e => entryText (b.keyText e.1) e.2

def text (b : Block) : List Char := Yaml.lineText (b.lines.map String.toList)

def toSection (b : Block) : Section := (b.path, b.settings)

/-- The header and the keys are read as what is meant, and the settings have a form. -/
structure IsWritten (b : Block) : Prop where
  header : ∃ texts, texts ≠ [] ∧ Forall₂ (Reads readKey) texts b.path ∧
    b.header.toList = '[' :: (['.'].intercalate texts ++ [']'])
  keys : ∀ e ∈ b.settings, Reads readKey (b.keyText e.1).toList e.1
  values : ∀ e ∈ b.settings, e.2.IsToml

/-- **A section is read again**, up to the empty line after it. -/
theorem readSections_text {b : Block} (h : b.IsWritten) {tail rest : List Char}
    (htail : tail = [] ∧ rest = [] ∨ tail = '\n' :: rest) (n : Nat) :
    readSections (n + 1) (b.text ++ tail) = (readSections n rest).map (b.toSection :: ·) := by
  obtain ⟨texts, hne, hpath, hheader⟩ := h.header
  have hlines : Forall₂ (Reads readLine)
      ((b.settings.map fun e => entryText (b.keyText e.1) e.2).map String.toList) b.settings := by
    rw [map_map, forall₂_map_left_iff, forall₂_same]
    exact fun e he => reads_line (h.keys e he) (h.values e he)
  have hitems := fun rest => @readItems_eq _ _ ['.'] [']'] (by decide)
    (fun _ => ⟨free_cons rfl _, free_cons rfl _⟩) (by simp) _ _ hpath hne rest _
    (Nat.lt_succ_self _)
  rw [text, lines, map_cons, hheader, Yaml.lineText_cons, append_assoc, cons_append,
    append_assoc, readSections]
  refine (congrArg (Option.bind · _) (hitems _)).trans ?_
  refine (congrArg (Option.bind · _) (readEntries_eq hlines htail (Nat.lt_succ_self _))).trans ?_
  rfl

/-- **Sections are read again** from their lines, with an empty line between two of them. -/
theorem readSections_eq {b : Block} {bs : List Block} (h : ∀ b' ∈ b :: bs, b'.IsWritten) {n : Nat}
    (hn : (Yaml.lineText
      ((b.lines ++ bs.flatMap fun b => "" :: b.lines).map String.toList)).length < n) :
    readSections n (Yaml.lineText ((b.lines ++ bs.flatMap fun b => "" :: b.lines).map
      String.toList)) = some ((b :: bs).map toSection) := by
  have htext : Yaml.lineText ((b.lines ++ bs.flatMap fun b => "" :: b.lines).map String.toList) =
      b.text ++ bs.flatMap fun b => '\n' :: b.text := by
    simp [Yaml.lineText, text, map_flatMap, flatMap_assoc]
  have hlength : ∀ b : Block, 0 < b.text.length := by
    intro b
    rw [text, lines, map_cons, Yaml.lineText_cons, length_append, length_cons]
    omega
  rw [htext] at hn ⊢
  clear htext
  induction bs generalizing b n with
  | nil =>
    have hb := hlength b
    rw [flatMap_nil, append_nil] at hn
    obtain ⟨n, rfl⟩ : ∃ m, n = m + 2 := ⟨n - 2, by omega⟩
    rw [readSections_text (h b mem_cons_self) (.inl ⟨flatMap_nil, rfl⟩)]
    rfl
  | cons b' bs ih =>
    obtain ⟨hb, hbs⟩ := forall_mem_cons.mp h
    rcases n with _ | n
    · omega
    rw [flatMap_cons, cons_append] at hn ⊢
    rw [length_append, length_cons] at hn
    rw [readSections_text hb (.inr rfl), ih hbs (by omega)]
    rfl

end Block

/-! ## Sections make tables -/

def under (key : String) (ss : List Section) : List Section := ss.map fun s => (key :: s.1, s.2)

/-- The sections below some keys, seen from above. -/
def gather (groups : Table (List Section)) : List Section := groups.flatMap fun g => under g.1 g.2

theorem group_under {key : String} {ss rest : List Section} (hne : ss ≠ [])
    (hnew : key ∉ keys (group rest)) :
    group (under key ss ++ rest) = (key, ss) :: group rest := by
  have hfirst : ∀ s, addBelow key s (group rest) = (key, [s]) :: group rest := by
    intro s
    cases hrest : group rest with
    | nil => rfl
    | cons g groups =>
      rw [hrest] at hnew
      exact if_neg fun heq : key = g.1 => hnew (heq ▸ mem_cons_self)
  induction ss with
  | nil => exact absurd rfl hne
  | cons s ss ih =>
    change addBelow key s (group (under key ss ++ rest)) = _
    by_cases hss : ss = []
    · subst hss
      exact hfirst s
    · rw [ih hss]
      exact if_pos rfl

variable {groups : Table (List Section)}

theorem group_gather (hne : ∀ g ∈ groups, g.2 ≠ []) (hnodup : (keys groups).Nodup) :
    group (gather groups) = groups := by
  induction groups with
  | nil => rfl
  | cons g groups ih =>
    obtain ⟨hg, hne⟩ := forall_mem_cons.mp hne
    obtain ⟨hnew, hnodup⟩ := nodup_cons.mp hnodup
    specialize ih hne hnodup
    rw [gather, flatMap_cons, group_under hg]
    · exact congrArg _ ih
    · exact ih.symm ▸ hnew

/-- **Sections make a table**, when those below each of its keys do. -/
theorem assemble_gather {n : Nat} (own : Option (Table Value)) (hne : ∀ g ∈ groups, g.2 ≠ [])
    {tables : Table Value}
    (hgroups : Related (fun ss v => (assemble n ss).map obj = some v) groups tables)
    (hnodup : (keys (own.getD [] ++ tables)).Nodup) :
    assemble (n + 1) ((own.toList.map fun t => ([], t)) ++ gather groups) =
      some (own.getD [] ++ tables) := by
  have hgroup : group ((own.toList.map fun t => ([], t)) ++ gather groups) = groups := by
    rw [Table.keys_append, ← hgroups.keys_eq] at hnodup
    refine Eq.trans ?_ (group_gather hne (nodup_append'.mp hnodup).2.1)
    cases own <;> rfl
  have hown : ((own.toList.map fun t => ([], t)) ++ gather groups).filter (·.1.isEmpty) =
      own.toList.map fun t => ([], t) := by
    have hothers : (gather groups).filter (·.1.isEmpty) = [] := by
      refine filter_eq_nil_iff.mpr fun s hs => ?_
      obtain ⟨g, -, hs⟩ := mem_flatMap.mp hs
      obtain ⟨_, -, rfl⟩ := mem_map.mp hs
      exact Bool.false_ne_true
    rw [filter_append, hothers, append_nil]
    exact filter_eq_self.mpr (forall_mem_map.mpr fun _ _ => rfl)
  have htables : groups.mapM (fun g => (assemble n g.2).map fun t => (g.1, obj t)) =
      some tables := by
    refine Json.mapM_eq_some.mpr (hgroups.imp fun g e h => ?_)
    obtain ⟨t, ht, hv⟩ := Option.map_eq_some_iff.mp h.2
    rw [ht, h.1, Option.map_some, hv]
  have hsettings : (own.toList.map fun t => ([], t)).flatMap (fun s : Section => s.2) =
      own.getD [] ∧ (own.toList.map fun t => (([], t) : Section)).length ≤ 1 := by
    cases own <;> simp
  rw [assemble]
  dsimp only
  rw [hown, hgroup, htables, Option.bind_eq_bind, Option.bind_some, hsettings.1]
  exact if_pos ⟨hsettings.2, hnodup⟩

end Toml

end FlowLock
