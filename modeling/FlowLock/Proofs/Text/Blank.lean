import FlowLock.Text.Digit
import Mathlib.Data.List.DropRight

/-!
# Texts without blanks

No digit is a blank, and a text without blanks is left as it is when blanks are trimmed.  So is
a text that was trimmed before.
-/

namespace FlowLock.Text

open List

theorem not_inRanges_of_apart {table others : List (Nat × Nat)}
    (h : ∀ r ∈ table, ∀ q ∈ others, r.2 < q.1 ∨ q.2 < r.1) {n : Nat}
    (hn : inRanges others n) : inRanges table n = false := by
  simp only [inRanges, any_eq_true, Bool.and_eq_true, decide_eq_true_eq,
    any_eq_false, not_and] at hn ⊢
  obtain ⟨q, hq, hlow, hhigh⟩ := hn
  intro r hr hle
  rcases h r hr q hq with h | h <;> omega

theorem isBlank_of_isDigit {c : Char} (h : isDigit c) : isBlank c = false := by
  rw [isDigit, Bool.or_eq_true] at h
  rcases h with h | h
  · have hrange : inRanges decimalRanges c.toNat := by
      rw [isDecimal, decimalValue?, Option.isSome_map, isSome_find?] at h
      exact h
    exact not_inRanges_of_apart (by decide) hrange
  · exact not_inRanges_of_apart (by decide) h

theorem dropEndWhile_eq_self {p : Char → Bool} {cs : List Char} (h : ∀ c ∈ cs, p c = false) :
    dropEndWhile p cs = cs := by
  have hkeep : ∀ ds : List Char, (∀ c ∈ ds, p c = false) → ds.dropWhile p = ds := by
    intro ds hds
    cases ds with
    | nil => rfl
    | cons d ds => simp [hds d mem_cons_self]
  rw [dropEndWhile, hkeep _ (by simpa using h), reverse_reverse]

theorem trim_eq_self {s : String} (h : ∀ c ∈ s.toList, isBlank c = false) : trim s = s := by
  have hstart : s.toList.dropWhile isBlank = s.toList := by
    cases hs : s.toList with
    | nil => rfl
    | cons c cs => simp [h c (hs ▸ mem_cons_self)]
  rw [trim, trimWhere, hstart, dropEndWhile_eq_self h, String.ofList_toList]

theorem dropEndWhile_isPrefix (p : Char → Bool) (cs : List Char) : dropEndWhile p cs <+: cs :=
  rdropWhile_prefix p cs

theorem trim_isInfix (s : String) : (trim s).toList <:+: s.toList := by
  rw [trim, trimWhere, String.toList_ofList]
  exact (dropEndWhile_isPrefix _ _).isInfix.trans (dropWhile_suffix _).isInfix

theorem trim_trim (s : String) : trim (trim s) = trim s := by
  have hstart : ∀ cs : List Char, ((cs.dropWhile isBlank).rdropWhile isBlank).dropWhile isBlank =
      (cs.dropWhile isBlank).rdropWhile isBlank := by
    intro cs
    -- The first character that is left is the first one after the leading blanks.
    refine dropWhile_eq_self_iff.mpr fun hpos => ?_
    have hpart := rdropWhile_prefix isBlank (l := cs.dropWhile isBlank)
    rw [hpart.getElem hpos]
    exact dropWhile_get_zero_not _ _ (hpos.trans_le hpart.length_le)
  have hchars : (trim s).toList = (s.toList.dropWhile isBlank).rdropWhile isBlank :=
    String.toList_ofList
  have hend : ∀ cs : List Char, dropEndWhile isBlank cs = cs.rdropWhile isBlank := fun _ => rfl
  rw [trim, trimWhere, hchars, hstart, hend, rdropWhile_idempotent]
  rfl

end FlowLock.Text
