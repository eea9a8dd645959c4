import FlowLock.Proofs.Json.Read

/-!
# What is encoded is read again

Values of texts, whole numbers, lists and objects have a JSON text, unless a number is too long,
and from that text the value is read again: by induction on the value, an item of a list and a
member of an object being read from its own part of the text.
-/

namespace FlowLock

open List Text Option Value

namespace Json

structure Style.IsSpaced (style : Style) : Prop where
  separator : ∃ gap, style.separator.toList = ',' :: gap ∧ Blanks gap
  colon : ∃ gap, style.colon.toList = ':' :: gap ∧ Blanks gap

theorem isSpaced_compact : compact.IsSpaced :=
  ⟨⟨[], rfl, forall_mem_nil _⟩, ⟨[], rfl, forall_mem_nil _⟩⟩

theorem blanks_repeated (k : Nat) : Blanks ("\n" ++ repeated " " k).toList := by
  rw [String.toList_append, repeated, String.toList_join]
  refine forall_mem_append.mpr ⟨by decide, fun c hc => ?_⟩
  obtain ⟨piece, hpiece, hc⟩ := mem_flatMap.mp hc
  rw [eq_of_mem_replicate hpiece] at hc
  exact (by decide : ∀ c ∈ " ".toList, isBlank c) c hc

theorem exists_bracket {style : Style} (hstyle : style.IsSpaced) (depth : Nat) {items : List String}
    (hne : items ≠ []) (opening closing : String) :
    ∃ lead gap trail, Blanks lead ∧ Blanks gap ∧ Blanks trail ∧
      (bracket style depth opening closing items).toList = opening.toList ++ (lead ++
        ((',' :: gap).intercalate (items.map String.toList) ++ (trail ++ closing.toList))) := by
  obtain ⟨gap, hseparator, hgap⟩ := hstyle.separator
  have hempty : items.isEmpty = false := isEmpty_eq_false_iff.mpr hne
  rw [bracket, hempty, if_neg Bool.false_ne_true]
  split
  · refine ⟨[], gap, [], forall_mem_nil _, hgap, forall_mem_nil _, ?_⟩
    rw [String.toList_append, String.toList_append, String.toList_intercalate, hseparator,
      append_assoc]
    rfl
  · next width _ =>
    dsimp only
    refine ⟨_, gap ++ _, _, blanks_repeated (width * (depth + 1)), forall_mem_append.mpr
      ⟨hgap, blanks_repeated (width * (depth + 1))⟩, blanks_repeated (width * depth), ?_⟩
    simp only [String.toList_append, String.toList_intercalate, hseparator, append_assoc,
      cons_append]

end Json

/-- A value that JSON has: no number but whole ones, and no keys but texts. -/
inductive Value.IsJson : Value → Prop
  | null : IsJson .null
  | bool (b : Bool) : IsJson (.bool b)
  | int (n : Int) : IsJson (.int n)
  | str (s : String) : IsJson (.str s)
  | list {xs : List Value} (h : ∀ x ∈ xs, IsJson x) : IsJson (.list xs)
  | obj {t : Table Value} (h : ∀ e ∈ t, IsJson e.2) : IsJson (.obj t)

namespace Value

mutual

/-- A value with its texts as they are read from their units. -/
def joined : Value → Value
  | .str s => .str (Text.joined s)
  | .list xs => .list (joinedItems xs)
  | .map es => .map (joinedEntries es)
  | v => v
termination_by structural v => v

def joinedItems : List Value → List Value
  | [] => []
  | x :: xs => joined x :: joinedItems xs
termination_by structural xs => xs

def joinedEntries : List (Value × Value) → List (Value × Value)
  | [] => []
  | e :: es => joinedEntry e :: joinedEntries es
termination_by structural es => es

def joinedEntry : Value × Value → Value × Value
  | (k, v) => (joined k, joined v)
termination_by structural e => e

end

theorem joined_list (xs : List Value) : joined (.list xs) = .list (xs.map joined) := by
  rw [joined]
  congr 1
  induction xs with
  | nil => rfl
  | cons x xs ih => rw [joinedItems, ih, map_cons]

theorem joined_obj (t : Table Value) :
    joined (.obj t) = .obj (t.map fun e => (Text.joined e.1, joined e.2)) := by
  rw [obj, obj, joined]
  congr 1
  induction t with
  | nil => rfl
  | cons e t ih =>
    rw [map_cons, joinedEntries, ih, joinedEntry, joined]
    rfl

end Value

namespace Json

variable {style : Style} {depth : Nat}

theorem exists_bracket_append (opening closing : String) (items : List String) :
    ∃ cs, (bracket style depth opening closing items).toList = opening.toList ++ cs := by
  unfold bracket
  split
  · exact ⟨_, String.toList_append⟩
  · split <;>
    · simp only [String.toList_append, append_assoc]
      exact ⟨_, rfl⟩

/-- An item is shorter than what stands between its brackets, and they stand around it. -/
theorem length_item_lt {items : List String} {item : String} (h : item ∈ items)
    {opening closing : String} (hopening : opening.length = 1) (hclosing : closing.length = 1) :
    item.length + 2 ≤ (bracket style depth opening closing items).length := by
  have hlength : ∀ sep : String, item.length ≤ (sep.intercalate items).length := fun sep =>
    (Within.intercalate sep h).length_le
  rw [bracket, isEmpty_eq_false_iff.mpr (ne_nil_of_mem h), if_neg Bool.false_ne_true]
  split
  · have := hlength style.separator
    simp only [String.length_append, hopening, hclosing]
    omega
  · next width _ =>
    have := hlength (style.separator ++ ("\n" ++ repeated " " (width * (depth + 1))))
    simp only [String.length_append, hopening, hclosing] at this ⊢
    omega

theorem forall₂_imp_mem {α β : Type} {R S : α → β → Prop} {xs : List α} {ys : List β}
    (h : Forall₂ R xs ys) (hS : ∀ x ∈ xs, ∀ y ∈ ys, R x y → S x y) : Forall₂ S xs ys := by
  induction h with
  | nil => exact .nil
  | cons hxy _ ih =>
    exact .cons (hS _ mem_cons_self _ mem_cons_self hxy)
      (ih fun x hx y hy => hS x (mem_cons_of_mem _ hx) y (mem_cons_of_mem _ hy))

theorem forall_of_forall₂ {α β : Type} {P : β → Prop} {xs : List α} {ys : List β}
    (h : Forall₂ (fun _ y => P y) xs ys) : ∀ y ∈ ys, P y := by
  induction h with
  | nil => exact forall_mem_nil _
  | cons hy _ ih => exact forall_mem_cons.mpr ⟨hy, ih⟩

def memberText? (style : Style) (depth : Nat) (e : String × Value) : Option String :=
  (encodeAt? style depth e.2).map fun text => quote e.1 ++ style.colon ++ text

theorem members?_cons (hsorted : style.sorted = false) (key text : String)
    (es : List (Value × String)) : members? style ((.str key, text) :: es) =
      (members? style es).map fun items => (quote key ++ style.colon ++ text) :: items := by
  simp only [members?, hsorted, Bool.false_eq_true, if_false, Option.bind_eq_bind,
    Option.bind_some, mapM_cons, keyText?, Option.pure_def, Option.map_eq_bind]
  rfl

theorem encodeAt?_members (hsorted : style.sorted = false) (t : Table Value) :
    encodeAt? style depth (.obj t) =
      (t.mapM (memberText? style (depth + 1))).map (bracket style depth "\x7b" "\x7d") := by
  have hmembers : (encodeEntries? style (depth + 1) (t.map fun e => (str e.1, e.2))).bind
      (members? style) = t.mapM (memberText? style (depth + 1)) := by
    induction t with
    | nil => simp [encodeEntries?, members?, hsorted]
    | cons e t ih =>
      rw [map_cons, mapM_cons, ← ih, memberText?, encodeEntries?, encodeEntry?]
      cases encodeAt? style (depth + 1) e.2 with
      | none => rfl
      | some text =>
        cases encodeEntries? style (depth + 1) (t.map fun e => (str e.1, e.2)) with
        | none => rfl
        | some es =>
          refine (members?_cons hsorted e.1 text es).trans ?_
          cases hes : members? style es <;> simp [hes]
  rw [obj, encodeAt?, ← hmembers]
  simp only [Option.bind_eq_bind, Option.pure_def, Option.map_eq_bind, Option.bind_assoc]
  rfl

theorem isSome_mapM {α β : Type} {f : α → Option β} {xs : List α} :
    (xs.mapM f).isSome ↔ ∀ x ∈ xs, (f x).isSome := by
  induction xs with
  | nil => simp
  | cons x xs ih =>
    rw [forall_mem_cons, ← ih, mapM_cons]
    cases f x <;> cases xs.mapM f <;> simp

theorem isSome_encodeAt?_obj (hsorted : style.sorted = false) (t : Table Value) :
    (encodeAt? style depth (.obj t)).isSome ↔
      ∀ e ∈ t, (encodeAt? style (depth + 1) e.2).isSome := by
  rw [encodeAt?_members hsorted, isSome_map, isSome_mapM]
  simp only [memberText?, isSome_map]

theorem eq_of_intText? {n : Int} {text : String} (h : intText? n = some text) :
    text = toString n := by
  unfold intText? at h
  dsimp only at h
  split at h
  · cases h
  · exact (some.inj h).symm

theorem exists_toString_cons (n : Int) : ∃ c cs, (toString n).toList = c :: cs ∧
    isBlank c = false ∧ c ∉ ['"', '[', ']', '\x7b', '\x7d'] := by
  have hnumeral := Yaml.numeral_toString n
  obtain ⟨c, cs, hc⟩ := exists_cons_of_ne_nil hnumeral.ne_nil
  exact ⟨c, cs, hc, hnumeral.forall_mem (P := fun c => isBlank c = false ∧ c ∉ _) (by decide) c
    (hc ▸ mem_cons_self)⟩

theorem starts_toString (n : Int) : Starts (toString n).toList := by
  obtain ⟨c, cs, hc, hblank, hne⟩ := exists_toString_cons n
  simp only [mem_cons, not_or] at hne
  exact ⟨c, cs, hc, hblank, hne.2.2.1, hne.2.2.2.2.1⟩

theorem starts_encodeAt? {v : Value} (hv : v.IsJson) {text : String}
    (h : encodeAt? style depth v = some text) : Starts text.toList := by
  cases hv with
  | null =>
    cases h
    exact ⟨'n', _, rfl, by decide⟩
  | bool b =>
    cases h
    cases b
    · exact ⟨'f', _, rfl, by decide⟩
    · exact ⟨'t', _, rfl, by decide⟩
  | int n =>
    obtain rfl := eq_of_intText? h
    exact starts_toString n
  | str s =>
    cases h
    obtain ⟨body, hbody, -⟩ := readText_quote s []
    exact ⟨'"', body, hbody, by decide⟩
  | list _ =>
    obtain ⟨items, -, h⟩ := Option.bind_eq_some_iff.mp h
    cases h
    obtain ⟨cs, hcs⟩ := exists_bracket_append "[" "]" items
    exact ⟨'[', cs, hcs, by decide⟩
  | obj _ =>
    obtain ⟨es, -, h⟩ := Option.bind_eq_some_iff.mp h
    obtain ⟨items, -, h⟩ := Option.bind_eq_some_iff.mp h
    cases h
    obtain ⟨cs, hcs⟩ := exists_bracket_append "\x7b" "\x7d" items
    exact ⟨'\x7b', cs, hcs, by decide⟩

theorem read_word {c : Char} {cs : List Char} (hblank : isBlank c = false) (hstring : c ≠ '"')
    (hlist : c ≠ '[') (hobject : c ≠ '\x7b') (n : Nat) :
    read (n + 1) (c :: cs) = readWord (c :: cs) := by
  rw [read, skip_cons hblank]
  split
  · next h => exact absurd (List.cons.inj h).1 hstring
  · next h => exact absurd (List.cons.inj h).1 hlist
  · next h => exact absurd (List.cons.inj h).1 hobject
  · rfl

theorem readsFrom_member {value : List Char → Option (Value × List Char)} (hstyle : style.IsSpaced)
    (hvalue : ∀ gap cs, Blanks gap → value (gap ++ cs) = value cs) {text : String} {v : Value}
    (h : ReadsFrom value text.toList v) (key : String) :
    ReadsFrom (readMember value) (quote key ++ style.colon ++ text).toList
      (joined key, v) := by
  intro rest hrest
  obtain ⟨gap, hcolon, hgap⟩ := hstyle.colon
  obtain ⟨body, hbody, hread⟩ :=
    readText_quote key (':' :: (gap ++ (text.toList ++ rest)))
  have htext : (quote key ++ style.colon ++ text).toList ++ rest =
      '"' :: (body ++ ':' :: (gap ++ (text.toList ++ rest))) := by
    simp only [String.toList_append, hbody, hcolon, append_assoc, cons_append]
  rw [htext, readMember, skip_cons (by decide)]
  simp only [hread, Option.bind_eq_bind, Option.bind_some,
    skip_cons (by decide : isBlank ':' = false), hvalue gap _ hgap, h rest hrest]

theorem readSequence_bracket {α β : Type} {item : List Char → Option (β × List Char)}
    (hstyle : style.IsSpaced) (hitem : ∀ gap cs, Blanks gap → item (gap ++ cs) = item cs)
    {items : List String} {xs : List α} {f : α → β}
    (h : Forall₂ (fun x text => Starts text.toList ∧ ReadsFrom item text.toList (f x)) xs
      items) (depth : Nat) (opening closing : String) (first last : Char)
    (hopening : opening.toList = [first]) (hclosing : closing.toList = [last])
    (hlast : last = ']' ∨ last = '\x7d') (rest : List Char) :
    ∃ cs, (bracket style depth opening closing items).toList = first :: cs ∧
      readSequence item last (cs ++ rest) = some (xs.map f, rest) := by
  by_cases hne : items = []
  · subst hne
    cases h
    refine ⟨[last], ?_, ?_⟩
    · rw [bracket, isEmpty_nil, if_pos rfl, String.toList_append, hopening, hclosing]
      rfl
    · have hskip := (skip_closing hlast (forall_mem_nil _ : Blanks []) rest).1
      rw [nil_append] at hskip
      simp [readSequence, hskip]
  · obtain ⟨lead, gap, trail, hlead, hgap, htrail, heq⟩ :=
      exists_bracket hstyle depth hne opening closing
    have hread : Forall₂ (ReadsFrom item) (items.map String.toList) (xs.map f) := by
      rw [forall₂_map_left_iff, forall₂_map_right_iff]
      exact (h.imp fun _ _ h => h.2).flip
    have hstarts : ∀ text ∈ items, Starts text.toList := forall_of_forall₂ (h.imp fun _ _ h => h.1)
    refine ⟨lead ++ ((',' :: gap).intercalate (items.map String.toList) ++ (trail ++ [last])),
      by rw [heq, hopening, hclosing]; rfl, ?_⟩
    rw [append_assoc, append_assoc, append_assoc, singleton_append]
    exact readSequence_eq hlast hitem hread (forall_mem_map.mpr hstarts) (by simpa using hne)
      hlead hgap htrail rest

/-- **What is encoded is read again**, with what comes after it. -/
theorem read_encodeAt? (hstyle : style.IsSpaced) (hsorted : style.sorted = false) {v : Value}
    (hv : v.IsJson) {text : String} (h : encodeAt? style depth v = some text) {n : Nat}
    (hn : text.length ≤ n) : ReadsFrom (read (n + 1)) text.toList v.joined := by
  induction hv generalizing depth text n with
  | null =>
    intro rest hrest
    cases h
    rfl
  | bool b =>
    intro rest hrest
    cases h
    cases b <;> rfl
  | int m =>
    intro rest hrest
    obtain rfl := eq_of_intText? h
    obtain ⟨c, cs, hc, hblank, hne⟩ := exists_toString_cons m
    simp only [mem_cons, not_or] at hne
    have hword := readWord_toString m hrest
    rw [hc, cons_append] at hword ⊢
    rw [read_word hblank hne.1 hne.2.1 hne.2.2.2.1, hword]
    rfl
  | str s =>
    intro rest hrest
    cases h
    obtain ⟨body, hbody, hread⟩ := readText_quote s rest
    rw [hbody, cons_append, read, skip_cons (by decide)]
    simp only [hread, Option.bind_eq_bind, Option.bind_some]
    rfl
  | @list xs hxs ih =>
    intro rest hrest
    obtain ⟨items, hitems, h⟩ := Option.bind_eq_some_iff.mp h
    cases h
    rw [encodeItems?_eq_mapM] at hitems
    replace hitems := mapM_eq_some.mp hitems
    have hread : Forall₂ (fun x item => Starts item.toList ∧
        ReadsFrom (read n) item.toList x.joined) xs items := by
      refine forall₂_imp_mem hitems fun x hx item hmem hitem => ?_
      have hlength : item.length + 2 ≤ (bracket style depth "[" "]" items).length :=
        length_item_lt hmem rfl rfl
      rcases n with _ | n
      · omega
      exact ⟨starts_encodeAt? (hxs x hx) hitem, ih x hx hitem (by omega)⟩
    obtain ⟨cs, hcs, hsequence⟩ := readSequence_bracket hstyle
      (fun gap cs hgap => read_append hgap n cs) hread depth "[" "]" '[' ']' rfl rfl (.inl rfl) rest
    rw [hcs, cons_append, read, skip_cons (by decide)]
    simp only [hsequence, Option.bind_eq_bind, Option.bind_some, Value.joined_list]
  | @obj t ht ih =>
    intro rest hrest
    rw [encodeAt?_members hsorted] at h
    obtain ⟨items, hitems, rfl⟩ := Option.map_eq_some_iff.mp h
    have hread : Forall₂ (fun e item => Starts item.toList ∧
        ReadsFrom (readMember (read n)) item.toList (Text.joined e.1, e.2.joined)) t items := by
      refine forall₂_imp_mem (mapM_eq_some.mp hitems) fun e he item hmem hitem => ?_
      obtain ⟨text, htext, rfl⟩ := Option.map_eq_some_iff.mp hitem
      have hlength : (quote e.1 ++ style.colon ++ text).length + 2 ≤
          (bracket style depth "\x7b" "\x7d" items).length := length_item_lt hmem rfl rfl
      rw [String.length_append] at hlength
      rcases n with _ | n
      · omega
      have hbound : text.length ≤ n := by omega
      have hvalue := ih e he htext hbound
      refine ⟨?_, readsFrom_member hstyle (fun gap cs hgap => read_append hgap _ cs) hvalue e.1⟩
      obtain ⟨body, hbody, -⟩ := readText_quote e.1 []
      rw [String.toList_append, String.toList_append, hbody]
      exact ⟨'"', _, rfl, by decide⟩
    obtain ⟨cs, hcs, hsequence⟩ := readSequence_bracket hstyle
      (fun gap cs hgap => readMember_append (read n) hgap cs) hread depth "\x7b" "\x7d" '\x7b'
      '\x7d' rfl rfl (.inr rfl) rest
    rw [hcs, cons_append, read, skip_cons (by decide)]
    simp only [hsequence, bind_eq_bind, bind_some, joined_obj]

/-- **The text of a value is read as the value**, with its texts as they are read. -/
theorem decode?_encode? (hstyle : style.IsSpaced) (hsorted : style.sorted = false) {v : Value}
    (hv : v.IsJson) {text : String} (h : encode? style v = some text) :
    decode? text = some v.joined := by
  have hread := read_encodeAt? hstyle hsorted hv h (Nat.le_refl _) [] fun _ h => nomatch h
  rw [append_nil] at hread
  simp [decode?, hread, skip]

end Json

end FlowLock
