import FlowLock.Proofs.Json.Canonical
import FlowLock.Proofs.SafeOutput.Processing

/-!
# What encoded payloads mean

Settings reach handlers and servers as JSON text, and digests are taken of JSON text.  Whatever
the style, the text is ASCII and is read as the value that was encoded; in the canonical style
the keys come back in order, since the text is that of the value with its keys in order.
-/

namespace FlowLock

open Outcome List Text Table SafeOutputs Nat Value

namespace Value

/-- The values that have a JSON text and are read from it as they are: no integer is too long,
and no text splits a pair. -/
inductive IsPayload : Value → Prop
  | null : IsPayload .null
  | bool (b : Bool) : IsPayload (.bool b)
  | int {n : Int} (h : Yaml.digitCount n ≤ maxDecimalDigits) : IsPayload (.int n)
  | str {s : String} (h : IsWhole s) : IsPayload (.str s)
  | list {xs : List Value} (h : ∀ x ∈ xs, IsPayload x) : IsPayload (.list xs)
  | obj {t : Table Value} (hkeys : ∀ e ∈ t, IsWhole e.1) (h : ∀ e ∈ t, IsPayload e.2) :
      IsPayload (.obj t)

namespace IsPayload

variable {v : Value}

theorem isJson (hv : v.IsPayload) : v.IsJson := by
  induction hv with
  | null => exact .null
  | bool b => exact .bool b
  | int _ => exact .int _
  | str _ => exact .str _
  | list _ ih => exact .list ih
  | obj _ _ ih => exact .obj ih

theorem joined_eq (hv : v.IsPayload) : v.joined = v := by
  induction hv with
  | null | bool _ | int _ => rfl
  | str h => rw [joined, joined_of_isWhole h]
  | list _ ih => rw [joined_list, map_congr_left ih, map_id']
  | @obj t hkeys _ ih =>
    have hentry : ∀ e ∈ t, (Text.joined e.1, joined e.2) = e := by
      intro e he
      rw [joined_of_isWhole (hkeys e he), ih e he]
    rw [joined_obj, map_congr_left hentry, map_id']

end IsPayload

/-! ## Keys in order -/

/-- The text by which an entry is put in order. -/
def entryName (e : Value × Value) : String := e.1.str?.getD ""

mutual

def ordered : Value → Value
  | .list xs => .list (orderedItems xs)
  | .map es => .map (sortOn entryName (orderedEntries es))
  | v => v
termination_by structural v => v

def orderedItems : List Value → List Value
  | [] => []
  | x :: xs => ordered x :: orderedItems xs
termination_by structural xs => xs

def orderedEntries : List (Value × Value) → List (Value × Value)
  | [] => []
  | e :: es => orderedEntry e :: orderedEntries es
termination_by structural es => es

def orderedEntry : Value × Value → Value × Value
  | (k, v) => (k, ordered v)
termination_by structural e => e

end

theorem ordered_list (xs : List Value) : ordered (.list xs) = .list (xs.map ordered) := by
  rw [ordered]
  congr 1
  induction xs with
  | nil => rfl
  | cons x xs ih => rw [orderedItems, ih, map_cons]

theorem ordered_obj (t : Table Value) :
    ordered (.obj t) = .obj ((Table.sorted t).map fun e => (e.1, ordered e.2)) := by
  have hentries : orderedEntries (t.map fun e => (str e.1, e.2)) =
      (t.map fun e => (e.1, ordered e.2)).map fun e => (str e.1, e.2) := by
    induction t with
    | nil => rfl
    | cons e t ih =>
      rw [map_cons, orderedEntries, ih, orderedEntry]
      rfl
  have hname : ∀ e : String × Value, e.1 = entryName (.str e.1, ordered e.2) := fun _ => rfl
  rw [obj, obj, ordered, hentries, map_map, map_map, Table.sorted]
  exact congrArg map (sortOn_map _ hname t)

theorem isPayload_ordered {v : Value} (hv : v.IsPayload) : v.ordered.IsPayload := by
  induction hv with
  | null => exact .null
  | bool b => exact .bool b
  | int h => exact .int h
  | str h => exact .str h
  | list _ ih =>
    rw [ordered_list]
    exact .list (forall_mem_map.mpr ih)
  | obj hkeys _ ih =>
    rw [ordered_obj]
    exact .obj (forall_mem_map.mpr fun e he => hkeys e (mem_sorted.mp he))
      (forall_mem_map.mpr fun e he => ih e (mem_sorted.mp he))

end Value

namespace Json

variable {style : Style} {depth : Nat} {v : Value} {text : String}

/-- **The canonical text of a value** is its compact text with the keys in order. -/
theorem encodeAt?_ordered (hv : v.IsJson) (h : encodeAt? canonical depth v = some text) :
    encodeAt? compact depth v.ordered = some text := by
  induction hv generalizing depth text with
  | null | bool _ | int _ | str _ => exact h
  | @list xs _ ih =>
    obtain ⟨items, hitems, h⟩ := Option.bind_eq_some_iff.mp h
    rw [encodeItems?_eq_mapM] at hitems
    have hall : (xs.map ordered).mapM (encodeAt? compact (depth + 1)) = some items := by
      rw [mapM_map]
      exact mapM_eq_some.mpr (forall₂_imp_mem (mapM_eq_some.mp hitems) fun x hx _ _ => ih x hx)
    rw [ordered_list, encodeAt?, encodeItems?_eq_mapM, hall]
    exact h
  | @obj t _ ih =>
    obtain ⟨u, hu, rfl⟩ := encodeAt?_obj.mp h
    have hsorted : TextsOf (depth + 1) (sorted t) (sorted u) := forall₂_sortOn _ hu
    rw [ordered_obj, encodeAt?_members rfl, mapM_map]
    refine Option.map_eq_some_iff.mpr ⟨membersOf u, mapM_eq_some.mpr ?_, rfl⟩
    rw [membersOf, forall₂_map_right_iff]
    refine forall₂_imp_mem hsorted fun e he d _ hd => ?_
    have hvalue := ih e (mem_sorted.mp he) hd.2
    rw [Function.comp_apply, memberText?, hvalue, hd.1]
    rfl

/-! ## Values have a text -/

theorem intText?_eq (n : Int) : intText? n =
    if Yaml.digitCount n > maxDecimalDigits then none else some (toString n) := by
  have hlength : (toString n.natAbs).length = Yaml.digitCount n := String.length_ofList
  rw [intText?, hlength]

theorem isSome_encodeAt? (hstyle : style.sorted = false ∨ style = canonical) (hv : v.IsPayload) :
    (encodeAt? style depth v).isSome := by
  induction hv generalizing depth with
  | null | bool _ | str _ => rfl
  | int h =>
    rw [encodeAt?, intText?_eq, if_neg (not_lt.mpr h)]
    rfl
  | @list xs _ ih =>
    have hitems : (xs.mapM (encodeAt? style (depth + 1))).isSome := isSome_mapM.mpr fun x hx => ih x hx
    obtain ⟨items, hitems⟩ := Option.isSome_iff_exists.mp hitems
    rw [encodeAt?, encodeItems?_eq_mapM, hitems]
    rfl
  | @obj t _ _ ih =>
    obtain hsorted | rfl := hstyle
    · exact (isSome_encodeAt?_obj hsorted t).mpr fun e he => ih e he
    · have hentries : (encodeEntries? canonical (depth + 1)
          (t.map fun e => (.str e.1, e.2))).isSome := by
        rw [encodeEntries?_eq_mapM, mapM_map, isSome_mapM]
        exact fun e he => (Option.isSome_map).trans (ih e he)
      obtain ⟨es, hes⟩ := Option.isSome_iff_exists.mp hentries
      obtain ⟨u, hu, -⟩ := encodeEntries?_str.mp hes
      exact Option.isSome_of_eq_some (encodeAt?_obj.mpr ⟨u, hu, rfl⟩)

/-! ## Texts are ASCII -/

theorem isAscii_append {s t : String} (hs : IsAscii s) (ht : IsAscii t) :
    IsAscii (s ++ t) := by
  rw [IsAscii, String.toList_append]
  exact forall_mem_append.mpr ⟨hs, ht⟩

theorem isAscii_unitEscape {n : Nat} (h : n < 0x10000) : IsAscii (unitEscape n) := by
  obtain ⟨ds, hds, hlt, -, -⟩ := @exists_hexPadded 4 n (by decide) h
  refine isAscii_append (by decide) fun c hc => ?_
  rw [hds] at hc
  obtain ⟨d, hd, rfl⟩ := mem_map.mp hc
  exact (by decide : ∀ d < 16, (digitChar d).toNat < 0x80) d (hlt d hd)

theorem isAscii_escapeChar (c : Char) : IsAscii (escapeChar c) := by
  have hvalid : c.toNat < 0xd800 ∨ 0xdfff < c.toNat ∧ c.toNat < 0x110000 := c.valid
  unfold escapeChar
  iterate 7
    split
    · decide
  split
  · next h =>
    simp only [Bool.and_eq_true, decide_eq_true_eq] at h
    rw [IsAscii, String.toList_singleton, forall_mem_singleton]
    omega
  split
  · next h => exact isAscii_unitEscape h
  · exact isAscii_append (isAscii_unitEscape (by omega)) (isAscii_unitEscape (by omega))

theorem isAscii_quote (s : String) : IsAscii (quote s) := by
  refine isAscii_append (isAscii_append (by decide) fun c hc => ?_) (by decide)
  rw [String.toList_join, flatMap_map] at hc
  obtain ⟨x, -, hc⟩ := mem_flatMap.mp hc
  exact isAscii_escapeChar x c hc

theorem forall_mem_intercalate {p : Char → Prop} {sep : List Char} (hsep : ∀ c ∈ sep, p c)
    {texts : List (List Char)} (h : ∀ text ∈ texts, ∀ c ∈ text, p c) :
    ∀ c ∈ sep.intercalate texts, p c := by
  induction texts with
  | nil => exact forall_mem_nil _
  | cons text texts ih =>
    obtain ⟨htext, htexts⟩ := forall_mem_cons.mp h
    cases texts with
    | nil => rwa [intercalate_singleton]
    | cons text' texts =>
      rw [intercalate_cons_cons]
      exact forall_mem_append.mpr ⟨forall_mem_append.mpr ⟨htext, hsep⟩, ih htexts⟩

theorem isAscii_of_blanks {gap : List Char} (h : Blanks gap) : ∀ c ∈ gap, c.toNat < 0x80 := by
  intro c hc
  have hblank := h c hc
  simp only [isBlank, Bool.or_eq_true, beq_iff_eq] at hblank
  obtain ((rfl | rfl) | rfl) | rfl := hblank <;> decide

theorem Style.IsSpaced.isAscii_colon (hstyle : style.IsSpaced) : IsAscii style.colon := by
  obtain ⟨gap, hcolon, hgap⟩ := hstyle.colon
  rw [IsAscii, hcolon]
  exact forall_mem_cons.mpr ⟨by decide, isAscii_of_blanks hgap⟩

theorem isAscii_bracket (hstyle : style.IsSpaced) {items : List String}
    (h : ∀ item ∈ items, IsAscii item) {opening closing : String}
    (hopening : IsAscii opening) (hclosing : IsAscii closing) :
    IsAscii (bracket style depth opening closing items) := by
  by_cases hne : items = []
  · subst hne
    exact isAscii_append hopening hclosing
  · obtain ⟨lead, gap, trail, hlead, hgap, htrail, heq⟩ :=
      exists_bracket hstyle depth hne opening closing
    have hseparator : ∀ c ∈ ',' :: gap, c.toNat < 0x80 :=
      forall_mem_cons.mpr ⟨by decide, isAscii_of_blanks hgap⟩
    have hitems := forall_mem_intercalate hseparator (forall_mem_map.mpr h)
    rw [IsAscii, heq]
    simp only [forall_mem_append]
    exact ⟨hopening, isAscii_of_blanks hlead, hitems, isAscii_of_blanks htrail, hclosing⟩

/-- **The text of a value is ASCII.** -/
theorem isAscii_encodeAt? (hstyle : style.IsSpaced) (hsorted : style.sorted = false)
    (hv : v.IsJson) (h : encodeAt? style depth v = some text) : IsAscii text := by
  induction hv generalizing depth text with
  | null =>
    cases h
    decide
  | bool b =>
    cases h
    cases b <;> decide
  | int n =>
    obtain rfl := eq_of_intText? h
    exact (Yaml.numeral_toString n).forall_mem (by decide)
  | str s =>
    cases h
    exact isAscii_quote s
  | @list xs _ ih =>
    obtain ⟨items, hitems, h⟩ := Option.bind_eq_some_iff.mp h
    cases h
    rw [encodeItems?_eq_mapM] at hitems
    have hall : Forall₂ (fun _ item => IsAscii item) xs items :=
      forall₂_imp_mem (mapM_eq_some.mp hitems) fun x hx _ _ => ih x hx
    exact isAscii_bracket hstyle (forall_of_forall₂ hall) (by decide) (by decide)
  | @obj t _ ih =>
    rw [encodeAt?_members hsorted] at h
    obtain ⟨items, hitems, rfl⟩ := Option.map_eq_some_iff.mp h
    have hall : Forall₂ (fun _ item => IsAscii item) t items := by
      refine forall₂_imp_mem (mapM_eq_some.mp hitems) fun e he item _ hitem => ?_
      obtain ⟨value, hvalue, rfl⟩ := Option.map_eq_some_iff.mp hitem
      exact isAscii_append (isAscii_append (isAscii_quote e.1) hstyle.isAscii_colon)
        (ih e he hvalue)
    exact isAscii_bracket hstyle (forall_of_forall₂ hall) (by decide) (by decide)

/-! ## Payloads -/

theorem isSpaced_indented : indented.IsSpaced :=
  ⟨⟨[], rfl, forall_mem_nil _⟩, ⟨[' '], rfl, forall_mem_singleton.mpr rfl⟩⟩

theorem decode?_of_isPayload (hstyle : style.IsSpaced) (hsorted : style.sorted = false)
    (hv : v.IsPayload) (h : encode? style v = some text) :
    IsAscii text ∧ decode? text = some v := by
  refine ⟨isAscii_encodeAt? hstyle hsorted hv.isJson h, ?_⟩
  rw [decode?_encode? hstyle hsorted hv.isJson h, hv.joined_eq]

/-- A payload as it is read from its text: the canonical style puts its keys in order. -/
def readAs (style : Style) (v : Value) : Value := if style.sorted then v.ordered else v

theorem exists_text_of_isPayload (hv : v.IsPayload)
    (hstyle : style = compact ∨ style = indented ∨ style = canonical) :
    ∃ text, encode? style v = some text ∧ IsAscii text ∧
      decode? text = some (readAs style v) := by
  have hsome : (encode? style v).isSome :=
    isSome_encodeAt? (by obtain rfl | rfl | rfl := hstyle <;> simp [compact, indented]) hv
  obtain ⟨text, htext⟩ := Option.isSome_iff_exists.mp hsome
  refine ⟨text, htext, ?_⟩
  obtain rfl | rfl | rfl := hstyle
  · exact decode?_of_isPayload isSpaced_compact rfl hv htext
  · exact decode?_of_isPayload isSpaced_indented rfl hv htext
  · exact decode?_of_isPayload isSpaced_compact rfl (isPayload_ordered hv)
      (encodeAt?_ordered hv.isJson htext)

end Json

theorem SafeOutputs.isJson_handlerConfig {s : SafeOutputs} {config : Value}
    (h : s.handlerConfig = .ok config) : config.IsJson := by
  obtain ⟨entries, hentries, h⟩ := bind_eq_ok.mp h
  cases h
  have hall : ∀ e ∈ entries, e.2.IsJson :=
    Gives.mapM (fun o _ e he => (gives_handlerEntry s.footer o e he).2) entries hentries
  exact .obj hall

theorem SafeOutputs.exists_handlerText {s : SafeOutputs} {environment : Table String}
    (h : s.processingEnvironment = .ok environment) :
    ∃ config text, s.handlerConfig = .ok config ∧ Json.encode? Json.compact config = some text ∧
      environment.get? configVariable = some text := by
  exact get?_processingEnvironment configVariable h (by decide) (by decide)

namespace Json

def sampleSection : SafeOutputs :=
  { outputs := [{ kind := .createIssue, max := some "2", token := "\"\\\n😀", target := {},
                  settings := [] }]
    ordered := by decide }

def sampleTable : Table Value :=
  [("create_issue", .obj [("max", .int 2), ("github-token", .str "\"\\\n😀")])]

end Json

end FlowLock
