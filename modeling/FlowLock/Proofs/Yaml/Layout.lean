import FlowLock.Proofs.Yaml.Written

/-!
# The tokens of a written value

A value is laid out piece by piece: an entry mark or a key with its mark, then the value
after it, and blocks two columns further in.  What a document can keep is told by
`isStorable`; the tokens that the lexer finds are those of `Tokens`, in which nothing is
left of the forms of scalars but whether they are plain.
-/

namespace FlowLock.Yaml

open List

/-! ## What a document keeps -/

def isNarrow (s : String) : Bool := s.toList.all fun c => !isWideBreak c

/-- Whether a document keeps a key: a key on one line with its value must not be too wide. -/
def keyFits (k : String) : Bool :=
  isNarrow k && (!(Written.ofText false k).isSimpleKey ||
    ((Written.ofText false k).write true 0 Sheet.blank).text.length ≤ 1024)

def keyText? : Value → Option String
  | .str k => some k
  | _ => none

/-- Whether a document keeps a value with collections nested to the given depth: nulls,
booleans, integers of a readable length, texts, lists, and mappings with text keys. -/
def isStorable : Nat → Value → Bool
  | _, .null => true
  | _, .bool _ => true
  | _, .int n => digitCount n ≤ Text.maxDecimalDigits
  | _, .str s => isNarrow s
  | d + 1, .list xs => xs.all (isStorable d)
  | d + 1, .map es =>
    decide (es.map fun e => keyText? e.1).Nodup &&
      es.all fun e => (keyText? e.1).any keyFits && isStorable d e.2
  | _, _ => false

theorem isWideBreak_of_isNarrow {s : String} (h : isNarrow s) :
    ∀ c ∈ s.toList, isWideBreak c = false := by
  intro c hc
  exact Bool.not_eq_true' _ ▸ all_eq_true.mp h c hc

/-! ## The tokens of a value -/

/-- An entry of a mapping: its key, whether that is written plain, its value and the
tokens of the value. -/
structure Row where
  key : String
  plain : Bool
  value : Value
  tokens : List TokenKind

def Row.all (row : Row) : List TokenKind :=
  .key :: .scalar row.key row.plain :: .value :: row.tokens

/-- The tokens of a value with collections nested to the given depth. -/
inductive Tokens : Nat → Value → List TokenKind → Prop
  | null {d : Nat} : Tokens d .null []
  | scalar {d : Nat} {v : Value} {text : String} {plain : Bool}
    (h : Denotes (scalarTag plain text) text v) :
    Tokens d v [.scalar text plain]
  | emptyList {d : Nat} : Tokens (d + 1) (.list []) [.flowSequenceStart, .flowSequenceEnd]
  | emptyMap {d : Nat} : Tokens (d + 1) (.map []) [.flowMappingStart, .flowMappingEnd]
  | list {d : Nat} {items : List (Value × List TokenKind)} (h : ∀ e ∈ items, Tokens d e.1 e.2) :
    Tokens (d + 1) (.list (items.map (·.1)))
      (.blockSequenceStart :: (items.flatMap (fun e => .blockEntry :: e.2) ++ [.blockEnd]))
  | map {d : Nat} {rows : List Row} (hkeys : (rows.map (·.key)).Nodup)
    (htag : ∀ row ∈ rows, scalarTag row.plain row.key = Tag.str)
    (h : ∀ row ∈ rows, Tokens d row.value row.tokens) :
    Tokens (d + 1) (.map (rows.map fun row => (.str row.key, row.value)))
      (.blockMappingStart :: (rows.flatMap Row.all ++ [.blockEnd]))

/-! ## Pieces of blocks -/

variable {write write₁ write₂ : Sheet → Sheet} {n i : Nat} {ks ks₁ ks₂ : List TokenKind}
  {start kind : TokenKind} {key : String}

def LaysBlock (write : Sheet → Sheet) (i : Nat) (start : TokenKind) (ks : List TokenKind) : Prop :=
  ∃ cs, (∀ c ∈ cs, isAcceptable c = true) ∧ Lexer.ScansBlock i start cs ks ∧
    ∀ {s xs}, Sheet.At (s.toIndent i) i xs → Sheet.Ended (write s) i (xs ++ cs)

theorem isAcceptable_spaces (k : Nat) : ∀ c ∈ replicate k ' ', isAcceptable c := by
  intro c hc
  rw [eq_of_mem_replicate hc]
  decide

theorem LaysBlock.append (h₁ : LaysBlock write₁ i start ks₁) (h₂ : LaysBlock write₂ i start ks₂) :
    LaysBlock (fun s => write₂ (write₁ s)) i start (ks₁ ++ ks₂) := by
  obtain ⟨cs₁, hcs₁, hscans₁, hwrite₁⟩ := h₁
  obtain ⟨cs₂, hcs₂, hscans₂, hwrite₂⟩ := h₂
  refine ⟨_, ?_, hscans₁.append hscans₂, fun h => ?_⟩
  · rw [forall_mem_append, forall_mem_append]
    exact ⟨hcs₁, isAcceptable_spaces i, hcs₂⟩
  · have hended := hwrite₂ (hwrite₁ h i (Nat.le_refl i))
    simpa only [append_assoc] using hended

theorem LaysBlock.lays (h : LaysBlock write (n + 2) start ks) :
    Lays write n (start :: (ks ++ [.blockEnd])) := by
  obtain ⟨cs, hcs, hscans, hwrite⟩ := h
  intro entry
  refine ⟨lead entry n ++ cs, ?_, Lexer.scansValue_block hscans, fun h => ?_⟩
  · rw [forall_mem_append]
    refine ⟨?_, hcs⟩
    cases entry with
    | true => exact isAcceptable_spaces 1
    | false => exact forall_mem_cons.mpr ⟨by decide, isAcceptable_spaces (n + 2)⟩
  · have hended := (hwrite h.toBlock).mono (Nat.le_add_right n 2)
    simpa only [append_assoc] using hended

theorem laysBlock_entry {mark : String} {ch : Char} (hmark : Lexer.EntryMark ch start kind)
    (htext : mark.toList = [ch]) (h : Lays write i ks) :
    LaysBlock (fun s => write ((s.toIndent i).indicator mark true false true)) i start
      (kind :: ks) := by
  obtain ⟨cs, hcs, hscans, hwrite⟩ := h true
  refine ⟨ch :: cs, ?_, Lexer.scansBlock_entry hmark hscans, fun hat => ?_⟩
  · rw [forall_mem_cons]
    refine ⟨?_, hcs⟩
    cases hmark <;> decide
  · have hlength : mark.length = 1 := by rw [← String.length_toList, htext]; rfl
    have hended := hwrite (hat.mark hlength)
    rwa [htext, append_assoc] at hended

theorem laysBlock_simpleKey (hkey : keyFits key)
    (hsimple : (Written.ofText false key).isSimpleKey) (h : Lays write i ks) :
    ∃ plain, scalarTag plain key = Tag.str ∧
      LaysBlock (fun s => write (((Written.ofText false key).write true (i + 2)
        (s.toIndent i)).indicator ":" false false false)) i .blockMappingStart
        (.key :: .scalar key plain :: .value :: ks) := by
  rw [keyFits, hsimple, Bool.not_true, Bool.false_or, Bool.and_eq_true, decide_eq_true_eq] at hkey
  obtain ⟨plain, xs, hreads, hwrites, hxs, htag⟩ := exists_simpleKey (isWideBreak_of_isNarrow hkey.1)
  have hlength : xs.length ≤ 1024 := by
    have htext : _ = xs := (hwrites 0 Sheet.blank).text
    rw [← htext, String.length_toList]
    exact hkey.2
  obtain ⟨cs, hcs, hscans, hwrite⟩ := h false
  have hpiece := Lexer.scansBlock_simpleKey hreads hlength hscans
  rw [String.ofList_toList] at hpiece
  refine ⟨plain, htag, xs ++ ':' :: cs, ?_, hpiece, fun hat => ?_⟩
  · rw [forall_mem_append, forall_mem_cons]
    exact ⟨hxs, by decide, hcs⟩
  · have hended := hwrite (hat.simpleKey (hwrites (i + 2) _))
    simpa only [append_assoc, cons_append, nil_append] using hended

theorem laysBlock_key (hkey : keyFits key) (h : Lays write i ks) :
    ∃ plain, scalarTag plain key = Tag.str ∧
      LaysBlock (fun s => write (writeKey i (Written.ofText false key) s)) i .blockMappingStart
        (.key :: .scalar key plain :: .value :: ks) := by
  by_cases hsimple : (Written.ofText false key).isSimpleKey
  · have hwrite : (fun s => write (writeKey i (Written.ofText false key) s)) = fun s =>
        write (((Written.ofText false key).write true (i + 2)
          (s.toIndent i)).indicator ":" false false false) := by
      funext s
      rw [writeKey, if_pos hsimple]
    rw [hwrite]
    exact laysBlock_simpleKey hkey hsimple h
  · have hnarrow : isNarrow key := (Bool.and_eq_true _ _ ▸ hkey).1
    obtain ⟨plain, htag, hlays⟩ := lays_text false (isWideBreak_of_isNarrow hnarrow) i
    have hpieces := (@laysBlock_entry _ i _ _ _ "?" '?' .key (by decide) hlays).append
      (@laysBlock_entry _ i _ _ _ ":" ':' .value (by decide) h)
    have hwrite : ∀ s, writeKey i (Written.ofText false key) s =
        (Sheet.toIndent ((Written.ofText false key).write false (i + 2)
          ((s.toIndent i).indicator "?" true false true)) i).indicator ":" true false true := by
      intro s
      rw [writeKey, if_neg hsimple]
    simp only [hwrite]
    exact ⟨plain, htag, hpieces⟩

/-! ## Values -/

theorem laysBlock_foldl {α : Type} {xs : List α} {write : α → Sheet → Sheet}
    {tokens : α → List TokenKind} (hne : xs ≠ [])
    (h : ∀ x ∈ xs, LaysBlock (write x) i start (tokens x)) :
    LaysBlock (fun s => xs.foldl (fun s x => write x s) s) i start (xs.flatMap tokens) := by
  induction xs with
  | nil => exact absurd rfl hne
  | cons x xs ih =>
    rw [forall_mem_cons] at h
    cases xs with
    | nil =>
      rw [flatMap_cons, flatMap_nil, append_nil]
      exact h.1
    | cons y ys => exact h.1.append (ih (cons_ne_nil _ _) h.2)

theorem writeItems_eq_foldl (mode : Mode) (xs : List Value) (s : Sheet) :
    writeItems mode i xs s = xs.foldl (fun s x =>
      writeValue mode false (some i) x ((s.toIndent i).indicator "-" true false true)) s := by
  induction xs generalizing s with
  | nil => rfl
  | cons x xs ih => rw [writeItems, ih]; rfl

theorem writeEntries_eq_foldl (mode : Mode) (es : Entries) (s : Sheet) :
    writeEntries mode i es s = es.foldl (fun s e => writeEntry mode i e s) s := by
  induction es generalizing s with
  | nil => rfl
  | cons e es ih => rw [writeEntries, ih]; rfl

/-- What holds of every member can be chosen for all of them at once. -/
theorem exists_map_fst {α β : Type} {P : α → β → Prop} {xs : List α} (h : ∀ x ∈ xs, ∃ y, P x y) :
    ∃ pairs : List (α × β), pairs.map (·.1) = xs ∧ ∀ e ∈ pairs, P e.1 e.2 := by
  induction xs with
  | nil => exact ⟨[], rfl, by simp⟩
  | cons x xs ih =>
    rw [forall_mem_cons] at h
    obtain ⟨y, hy⟩ := h.1
    obtain ⟨pairs, rfl, hpairs⟩ := ih h.2
    exact ⟨(x, y) :: pairs, rfl, forall_mem_cons.mpr ⟨hy, hpairs⟩⟩

/-- The values of a given depth are laid out wherever they stand. -/
def LaysAll (d : Nat) : Prop :=
  ∀ {v}, isStorable d v = true → ∀ mode quoted n,
    ∃ ks, Tokens d v ks ∧ Lays (writeValue mode quoted (some n) v) n ks

variable {d : Nat}

theorem exists_laysItems (h : LaysAll d) {xs : List Value} (hne : xs ≠ [])
    (hxs : xs.all (isStorable d)) (mode : Mode) (i : Nat) :
    ∃ items : List (Value × List TokenKind), items.map (·.1) = xs ∧ (∀ e ∈ items, Tokens d e.1 e.2) ∧
      LaysBlock (writeItems mode i xs) i .blockSequenceStart
        (items.flatMap fun e => .blockEntry :: e.2) := by
  obtain ⟨items, rfl, hitems⟩ := exists_map_fst fun x hx =>
    h (all_eq_true.mp hxs x hx) mode false i
  refine ⟨items, rfl, fun e he => (hitems e he).1, ?_⟩
  have hwrite : writeItems mode i (items.map (·.1)) = fun s => items.foldl (fun s e =>
      writeValue mode false (some i) e.1 ((s.toIndent i).indicator "-" true false true)) s := by
    funext s
    rw [writeItems_eq_foldl, foldl_map]
  rw [hwrite]
  refine laysBlock_foldl (fun hnil => hne (by rw [hnil]; rfl)) fun e he => ?_
  exact @laysBlock_entry _ i _ _ _ "-" '-' .item (by decide) (hitems e he).2

theorem laysBlock_writeEntry {v : Value} {mode : Mode} (hkey : keyFits key)
    (h : Lays (writeValue (mode.below (.str key) v) (mode == .env) (some i) v) i ks) :
    ∃ plain, scalarTag plain key = Tag.str ∧
      LaysBlock (writeEntry mode i (.str key, v)) i .blockMappingStart
        (.key :: .scalar key plain :: .value :: ks) := by
  have hwrite : writeEntry mode i (.str key, v) = fun sheet =>
      writeValue (mode.below (.str key) v) (mode == .env) (some i) v
        (writeKey i (Written.ofText false key) sheet) := by
    funext sheet
    rw [writeEntry]
    rfl
  rw [hwrite]
  exact laysBlock_key hkey h

theorem exists_row (h : LaysAll d) {e : Value × Value} (hkey : (keyText? e.1).any keyFits)
    (hvalue : isStorable d e.2) (mode : Mode) (i : Nat) :
    ∃ row : Row, e = (.str row.key, row.value) ∧ scalarTag row.plain row.key = Tag.str ∧
      Tokens d row.value row.tokens ∧
      LaysBlock (writeEntry mode i e) i .blockMappingStart row.all := by
  obtain ⟨k, v⟩ := e
  cases k with
  | str s =>
    have hfits : keyFits s := hkey
    obtain ⟨ks, htokens, hlays⟩ := h hvalue (mode.below (.str s) v) (mode == .env) i
    obtain ⟨plain, htag, hblock⟩ := laysBlock_writeEntry hfits hlays
    exact ⟨⟨s, plain, v, ks⟩, rfl, htag, htokens, hblock⟩
  | _ => cases hkey

theorem nodup_keys {rows : List Row}
    (h : (rows.map fun row => keyText? (.str row.key)).Nodup) : (rows.map (·.key)).Nodup :=
  pairwise_map.mpr <| (pairwise_map.mp h).imp fun hne heq => hne (congrArg some heq)

theorem exists_laysEntries (h : LaysAll d) {es : Entries} (hne : es ≠ [])
    (hes : isStorable (d + 1) (.map es)) (mode : Mode) (i : Nat) :
    ∃ rows : List Row, es = rows.map (fun row => (.str row.key, row.value)) ∧
      (rows.map (·.key)).Nodup ∧ (∀ row ∈ rows, scalarTag row.plain row.key = Tag.str) ∧
      (∀ row ∈ rows, Tokens d row.value row.tokens) ∧
      LaysBlock (writeEntries mode i es) i .blockMappingStart (rows.flatMap Row.all) := by
  rw [isStorable, Bool.and_eq_true, decide_eq_true_eq, all_eq_true] at hes
  obtain ⟨hnodup, hall⟩ := hes
  obtain ⟨pairs, rfl, hpairs⟩ := exists_map_fst fun e he => by
    have hentry := Bool.and_eq_true _ _ ▸ hall e he
    exact exists_row h hentry.1 hentry.2 mode i
  have hentries : pairs.map (·.1) =
      (pairs.map (·.2)).map fun row => (Value.str row.key, row.value) := by
    rw [map_map]
    exact map_congr_left fun e he => (hpairs e he).1
  refine ⟨pairs.map (·.2), hentries, ?_, ?_, ?_, ?_⟩
  · rw [hentries, map_map] at hnodup
    exact nodup_keys hnodup
  · rw [forall_mem_map]
    exact fun e he => (hpairs e he).2.1
  · rw [forall_mem_map]
    exact fun e he => (hpairs e he).2.2.1
  · have hwrite : writeEntries mode i (pairs.map (·.1)) = fun s =>
        pairs.foldl (fun s e => writeEntry mode i e.1 s) s := by
      funext s
      rw [writeEntries_eq_foldl, foldl_map]
    rw [hwrite, flatMap_map]
    exact laysBlock_foldl (fun hnil => hne (by rw [hnil]; rfl)) fun e he => (hpairs e he).2.2.2

theorem lays_empty {opening closing : Char} {close : TokenKind} {first last : String}
    (hbr : Lexer.Brackets opening closing start close) (hfirst : first.toList = [opening])
    (hlast : last.toList = [closing]) (n : Nat) :
    Lays (writeEmpty first last) n [start, close] := by
  intro entry
  refine ⟨[' ', opening, closing, '\n'], ?_, Lexer.scansValue_empty hbr, fun h => ?_⟩
  · cases hbr <;> decide
  · have hended := h.writes (Sheet.writes_empty first last)
    rwa [hfirst, hlast] at hended

theorem exists_laysScalar {v : Value} (h : isStorable 0 v) (mode : Mode) (quoted : Bool)
    (n : Nat) :
    ∃ ks, (∀ d, Tokens d v ks) ∧ Lays (writeValue mode quoted (some n) v) n ks := by
  cases v with
  | null => exact ⟨[], fun _ => .null, lays_null quoted n⟩
  | bool b =>
    obtain ⟨text, hdenotes, hlays⟩ := lays_bool quoted b n
    exact ⟨_, fun _ => .scalar hdenotes, hlays⟩
  | int k =>
    exact ⟨_, fun _ => .scalar (scalarTag_int k ▸ denotes_int (decide_eq_true_eq.mp h)),
      lays_int quoted k n⟩
  | str s =>
    obtain ⟨plain, htag, hlays⟩ := lays_text quoted (isWideBreak_of_isNarrow h) n
    exact ⟨_, fun _ => .scalar (htag ▸ denotes_str s), hlays⟩
  | _ => cases h

theorem exists_lays : LaysAll d := by
  induction d with
  | zero =>
    intro v h mode quoted n
    obtain ⟨ks, htokens, hlays⟩ := exists_laysScalar h mode quoted n
    exact ⟨ks, htokens 0, hlays⟩
  | succ d ih =>
    intro v h mode quoted n
    have hscalar := @exists_laysScalar v
    cases v with
    | list xs =>
      cases xs with
      | nil => exact ⟨_, .emptyList, lays_empty .list rfl rfl n⟩
      | cons x xs =>
        obtain ⟨items, hitems, htokens, hblock⟩ :=
          exists_laysItems ih (cons_ne_nil x xs) h mode.item (n + 2)
        exact ⟨_, hitems ▸ .list htokens, hblock.lays⟩
    | map es =>
      cases es with
      | nil => exact ⟨_, .emptyMap, lays_empty .map rfl rfl n⟩
      | cons e es =>
        obtain ⟨rows, hrows, hkeys, htag, htokens, hblock⟩ :=
          exists_laysEntries ih (cons_ne_nil e es) h mode (n + 2)
        exact ⟨_, hrows ▸ .map hkeys htag htokens, hblock.lays⟩
    | null | bool | int | str =>
      obtain ⟨ks, htokens, hlays⟩ := hscalar h mode quoted n
      exact ⟨ks, htokens _, hlays⟩
    | _ => cases h

end FlowLock.Yaml
