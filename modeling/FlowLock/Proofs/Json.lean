import FlowLock.Proofs.Text
import FlowLock.Value.Json
import Mathlib.Data.List.Forall2

/-!
# What the JSON text of a value holds

The encoder writes every text of a value, under whatever keys it is found, as a JSON
string of its own.  A run of plain characters is not changed by that, so it can be
searched for in the encoding.
-/

namespace FlowLock

open List

/-- A text stands in a value: it is the value, or stands in an item of a list or at a
key of a mapping. -/
inductive Value.Holds (s : String) : Value → Prop
  | str : Holds s (.str s)
  | item {x : Value} {xs : List Value} : x ∈ xs → Holds s x → Holds s (.list xs)
  | entry {e : Value × Value} {es : List (Value × Value)} : e ∈ es → Holds s e.2 → Holds s (.map es)

theorem Value.Holds.obj {s : String} {e : String × Value} {fields : List (String × Value)}
    (he : e ∈ fields) (h : Holds s e.2) : Holds s (.obj fields) :=
  .entry (mem_map_of_mem he) h

namespace Json

open Text

/-! ## Characters -/

/-- A character that a JSON string holds as it is. -/
def IsPlain (c : Char) : Prop :=
  0x20 ≤ c.toNat ∧ c.toNat ≤ 0x7e ∧ c ≠ '"' ∧ c ≠ '\\'

instance (c : Char) : Decidable (IsPlain c) := inferInstanceAs (Decidable (_ ∧ _))

theorem escapeChar_of_isPlain {c : Char} (h : IsPlain c) : escapeChar c = String.singleton c := by
  obtain ⟨hlow, hhigh, hquote, hslash⟩ := h
  have hne : ∀ d : Char, d.toNat < 0x20 → c ≠ d := by
    rintro d hd rfl
    omega
  have hcontrol : ∀ n, n < 0x20 → (c.toNat == n) = false := by
    intro n hn
    rw [beq_eq_false_iff_ne]
    omega
  simp [escapeChar, hquote, hslash, hne '\n' (by decide), hne '\r' (by decide),
    hne '\t' (by decide), hcontrol 0x8 (by decide), hcontrol 0xc (by decide), hlow, hhigh]

theorem flatMap_escapeChar_of_isPlain {cs : List Char} (h : ∀ c ∈ cs, IsPlain c) :
    cs.flatMap (fun c => (escapeChar c).toList) = cs := by
  induction cs with
  | nil => rfl
  | cons c cs ih =>
    rw [forall_mem_cons] at h
    rw [flatMap_cons, escapeChar_of_isPlain h.1, ih h.2, String.toList_singleton]
    rfl

theorem within_quote {piece s : String} (hplain : ∀ c ∈ piece.toList, IsPlain c)
    (h : Within piece s) : Within piece (quote s) := by
  obtain ⟨before, after, hs⟩ := h
  have hjoin : Within piece (String.join (s.toList.map escapeChar)) := by
    rw [Within, String.toList_join, flatMap_map, ← hs, flatMap_append,
      flatMap_append, flatMap_escapeChar_of_isPlain hplain]
    exact infix_append _ _ _
  exact (hjoin.append_left _).append_right _

/-! ## Items and entries -/

variable {style : Style} {depth : Nat} {items : List String}

theorem within_bracket {opening closing item : String} (h : item ∈ items) :
    Within item (bracket style depth opening closing items) := by
  rw [bracket, isEmpty_eq_false_iff.mpr (ne_nil_of_mem h), if_neg Bool.false_ne_true]
  split
  · exact ((Within.intercalate _ h).append_left _).append_right _
  · exact (((Within.intercalate _ h).append_left _).append_right _).append_right _

section MapM

variable {α β : Type} {f : α → Option β} {xs : List α} {ys : List β}

theorem mapM_eq_some : xs.mapM f = some ys ↔ Forall₂ (fun x y => f x = some y) xs ys := by
  induction xs generalizing ys with
  | nil => simp [eq_comm]
  | cons x xs ih => simp [forall₂_cons_left_iff, Option.bind_eq_some_iff, ← ih, @eq_comm _ ys]

theorem exists_mem_of_mapM {x : α} (h : xs.mapM f = some ys) (hx : x ∈ xs) :
    ∃ y ∈ ys, f x = some y := by
  induction mapM_eq_some.mp h with
  | nil => cases hx
  | @cons z y xs ys hy hrest ih =>
    rcases mem_cons.mp hx with rfl | hx
    · exact ⟨y, mem_cons_self, hy⟩
    · obtain ⟨y', hy', hf⟩ := ih (mapM_eq_some.mpr hrest) hx
      exact ⟨y', mem_cons_of_mem _ hy', hf⟩

end MapM

theorem encodeItems?_eq_mapM (xs : List Value) :
    encodeItems? style depth xs = xs.mapM (encodeAt? style depth) := by
  induction xs with
  | nil => rfl
  | cons x xs ih => rw [encodeItems?, ih, mapM_cons]

theorem encodeEntries?_eq_mapM (es : List (Value × Value)) :
    encodeEntries? style depth es = es.mapM ( encodeEntry? style depth) := by
  induction es with
  | nil => rfl
  | cons e es ih => rw [encodeEntries?, ih, mapM_cons]

/-- With its entries in their own order, a mapping has the text of each value in its
members. -/
theorem exists_within_members? (hstyle : style.sorted = false) {encoded : List (Value × String)}
    (h : members? style encoded = some items) {e : Value × String} (he : e ∈ encoded) :
    ∃ item ∈ items, Within e.2 item := by
  rw [members?, hstyle] at h
  obtain ⟨item, hitem, hmember⟩ := exists_mem_of_mapM h he
  obtain ⟨key, -, hkey⟩ := Option.bind_eq_some_iff.mp hmember
  obtain rfl := Option.some.inj hkey
  exact ⟨_, hitem, (Within.refl e.2).append_left _⟩

/-- **The texts of a value stand in its encoding**, each as a JSON string. -/
theorem quote_within_encodeAt? (hstyle : style.sorted = false) {s text : String} {v : Value}
    (hv : v.Holds s) (h : encodeAt? style depth v = some text) : Within (quote s) text := by
  induction hv generalizing depth text with
  | str =>
    obtain rfl := Option.some.inj h
    exact Within.refl _
  | item hx _ ih =>
    obtain ⟨texts, htexts, hpure⟩ := Option.bind_eq_some_iff.mp h
    obtain rfl := Option.some.inj hpure
    rw [encodeItems?_eq_mapM] at htexts
    obtain ⟨inner, hinner, hencode⟩ := exists_mem_of_mapM htexts hx
    exact (ih hencode).trans (within_bracket hinner)
  | @entry e es he _ ih =>
    obtain ⟨encoded, hencoded, hrest⟩ := Option.bind_eq_some_iff.mp h
    obtain ⟨items, hitems, hpure⟩ := Option.bind_eq_some_iff.mp hrest
    obtain rfl := Option.some.inj hpure
    rw [encodeEntries?_eq_mapM] at hencoded
    obtain ⟨entry, hentry, hvalue⟩ := exists_mem_of_mapM hencoded he
    rw [ encodeEntry?] at hvalue
    obtain ⟨inner, hinner, rfl⟩ := Option.map_eq_some_iff.mp hvalue
    obtain ⟨item, hitem, hwithin⟩ := exists_within_members? hstyle hitems hentry
    exact ((ih hinner).trans hwithin).trans (within_bracket hitem)

end Json

end FlowLock
