import FlowLock.Text.Order
import FlowLock.Text.Search
import Mathlib.Data.List.Basic

/-!
# What stands in a text

A text that is put together from pieces has each of its pieces in it, one character
after the other.  `Within` says so, and its lemmas follow the ways in which texts are
put together here.
-/

namespace FlowLock.Text

open List String

/-- Only the characters of the list are looked at: there are finitely many characters, but
far too many of them to try. -/
instance (priority := 2000) decidableForallMem (P : Char → Prop) [DecidablePred P]
    (cs : List Char) : Decidable (∀ c ∈ cs, P c) :=
  decidableBAll P cs

def Within (piece text : String) : Prop := piece.toList <:+: text.toList

theorem includesList_iff (piece cs : List Char) : includesList piece cs ↔ piece <:+: cs := by
  induction cs with
  | nil => simp [includesList]
  | cons c cs ih =>
    rw [includesList, Bool.or_eq_true, ih, isPrefixOf_iff_prefix, infix_cons_iff]

theorem includes_iff {text piece : String} : includes text piece ↔ Within piece text :=
  includesList_iff piece.toList text.toList

theorem endsWith_iff {s piece : String} : endsWith s piece ↔ ∃ start, s = start ++ piece := by
  rw [endsWith, isSuffixOf_iff_suffix]
  constructor
  · rintro ⟨cs, hcs⟩
    exact ⟨ofList cs, toList_inj.mp (by simp [hcs])⟩
  · rintro ⟨start, rfl⟩
    exact ⟨start.toList, by simp⟩

theorem not_endsWith_of_not_mem {s : String} {c : Char} (h : c ∉ s.toList) :
    endsWith s (singleton c) = false := by
  rw [← Bool.not_eq_true, endsWith_iff]
  rintro ⟨start, rfl⟩
  simp at h

theorem dropLastChars_append (s piece : String) : dropLastChars (s ++ piece) piece.length = s := by
  simp [dropLastChars, ← length_toList]

/-! ## Runs of characters -/

section Run

variable {p : Char → Bool} {xs ys : List Char}

theorem takeWhile_append_of_head (hxs : ∀ x ∈ xs, p x) (hys : ∀ y ∈ ys.head?, p y = false) :
    (xs ++ ys).takeWhile p = xs := by
  rw [takeWhile_append_of_pos hxs]
  cases ys with
  | nil => rw [takeWhile_nil, append_nil]
  | cons y ys => rw [takeWhile_cons_of_neg (by simp [hys y rfl]), append_nil]

theorem dropWhile_append_of_head (hxs : ∀ x ∈ xs, p x) (hys : ∀ y ∈ ys.head?, p y = false) :
    (xs ++ ys).dropWhile p = ys := by
  have hsplit := takeWhile_append_dropWhile (p := p) (l := xs ++ ys)
  rw [takeWhile_append_of_head hxs hys] at hsplit
  exact append_cancel_left hsplit

theorem takeWhile_append_cons {c : Char} (hc : c ∉ xs) (tail : List Char) :
    (xs ++ c :: tail).takeWhile (· != c) = xs :=
  takeWhile_append_of_head (fun _ hx => bne_iff_ne.mpr fun heq => hc (heq ▸ hx)) (by simp)

end Run

/-! ## Pieces -/

namespace Within

variable {a b c : String} {pieces : List String}

theorem refl (a : String) : Within a a := infix_rfl

theorem trans (hab : Within a b) (hbc : Within b c) : Within a c := IsInfix.trans hab hbc

theorem append_right (h : Within a b) (c : String) : Within a (b ++ c) := by
  rw [Within, toList_append]
  exact infix_append_of_infix_left h

theorem append_left (h : Within a b) (c : String) : Within a (c ++ b) := by
  rw [Within, toList_append]
  exact infix_append_of_infix_right h

theorem length_le (h : Within a b) : a.length ≤ b.length := by
  rw [← length_toList, ← length_toList]
  exact IsInfix.length_le h

theorem join (h : a ∈ pieces) : Within a (join pieces) := by
  rw [Within, toList_join, flatMap_def]
  exact infix_of_mem_flatten (mem_map_of_mem h)

theorem intercalate (separator : String) (h : a ∈ pieces) :
    Within a (separator.intercalate pieces) := by
  induction pieces with
  | nil => cases h
  | cons p ps ih =>
    cases ps with
    | nil =>
      rw [mem_singleton.mp h, String.intercalate_singleton]
      exact refl p
    | cons q qs =>
      rw [String.intercalate_cons_cons]
      rcases mem_cons.mp h with rfl | h
      · exact ((refl a).append_right _).append_right _
      · exact (ih h).append_left _

end Within

/-! ## Sorting -/

variable {α : Type}

theorem mem_insertOn (key : α → String) (x y : α) (ys : List α) :
    x ∈ insertOn key y ys ↔ x = y ∨ x ∈ ys := by
  induction ys with
  | nil => simp [insertOn]
  | cons z ys ih =>
    rw [insertOn]
    split
    · exact mem_cons
    · rw [mem_cons, ih, mem_cons, or_left_comm]

theorem mem_sortOn (key : α → String) (x : α) (xs : List α) : x ∈ sortOn key xs ↔ x ∈ xs := by
  suffices h : ∀ done, x ∈ xs.foldl (fun done y => insertOn key y done) done ↔ x ∈ done ∨ x ∈ xs by
    simpa [sortOn] using h []
  induction xs with
  | nil => simp
  | cons y ys ih =>
    intro done
    rw [foldl_cons, ih, mem_insertOn, mem_cons, or_assoc, or_left_comm]

/-- No item stands after one with a greater key. -/
def InOrder {α : Type} (key : α → String) (xs : List α) : Prop :=
  xs.Pairwise fun x y => ¬ key y < key x

theorem InOrder.insertOn {key : α → String} {ys : List α} (h : InOrder key ys) (x : α) :
    InOrder key (insertOn key x ys) := by
  induction h with
  | nil => exact pairwise_singleton _ _
  | @cons y ys hy hys ih =>
    rw [Text.insertOn]
    split
    case isTrue hlt =>
      refine Pairwise.cons ?_ (.cons hy hys)
      intro z hz hzx
      have hzy := String.lt_trans hzx hlt
      rcases mem_cons.mp hz with rfl | hz
      · exact String.lt_irrefl _ hzy
      · exact hy z hz hzy
    case isFalse hlt =>
      refine Pairwise.cons ?_ ih
      intro z hz
      rcases (mem_insertOn key z x ys).mp hz with rfl | hz
      · exact hlt
      · exact hy z hz

end FlowLock.Text
