import FlowLock.Text.Order
import Mathlib.Data.List.Induction
import Mathlib.Data.List.Nodup

/-!
# Lists without repetitions

A list in which each item is kept at its first place only is built up item by item: one more
item is added when it is new.  Texts are made distinct in this way.
-/

namespace FlowLock.Text

open List

section FirstPlaces

variable {α : Type} [BEq α] [LawfulBEq α]

theorem eraseDups_concat (xs : List α) (x : α) :
    (xs ++ [x]).eraseDups = xs.eraseDups ++ if x ∈ xs then [] else [x] := by
  rw [eraseDups_append]
  by_cases hmem : x ∈ xs <;> simp [removeAll, eraseDups_cons, hmem]

theorem nodup_eraseDups (xs : List α) : xs.eraseDups.Nodup := by
  induction xs using reverseRecOn with
  | nil => exact nodup_nil
  | append_singleton xs x ih =>
    rw [eraseDups_concat]
    split
    · rwa [append_nil]
    · next hnew =>
      exact nodup_append'.mpr ⟨ih, nodup_singleton x, by simpa using hnew⟩

theorem nodup_of_length_eraseDups {xs : List α} (h : xs.eraseDups.length = xs.length) :
    xs.Nodup := by
  have hsub : xs.eraseDups <+ xs := by
    clear h
    induction xs using reverseRecOn with
    | nil => exact .slnil
    | append_singleton xs x ih =>
      rw [eraseDups_concat]
      refine ih.append ?_
      split
      · exact nil_sublist _
      · exact .refl _
  exact hsub.eq_of_length h ▸ nodup_eraseDups xs

theorem eraseDups_append_eraseDups (xs ys : List α) :
    (xs.eraseDups ++ ys).eraseDups = (xs ++ ys).eraseDups := by
  induction ys using reverseRecOn with
  | nil =>
    rw [append_nil, append_nil]
    induction xs using reverseRecOn with
    | nil => rfl
    | append_singleton xs x ih =>
      rw [eraseDups_concat]
      split
      · rw [append_nil, ih]
      · next hnew => rw [eraseDups_concat, ih, if_neg (by simpa using hnew)]
  | append_singleton ys y ih =>
    rw [← append_assoc, ← append_assoc, eraseDups_concat, ih, eraseDups_concat]
    simp

theorem foldl_eraseDups (xs ys : List α) :
    ys.foldl (fun seen y => if seen.contains y then seen else seen ++ [y]) xs.eraseDups =
      (xs ++ ys).eraseDups := by
  induction ys generalizing xs with
  | nil => rw [append_nil]; rfl
  | cons y ys ih =>
    have hstep : (if xs.eraseDups.contains y then xs.eraseDups else xs.eraseDups ++ [y]) =
        (xs ++ [y]).eraseDups := by
      rw [eraseDups_concat]
      by_cases hmem : y ∈ xs <;> simp [hmem]
    rw [foldl_cons, hstep, ih, append_assoc]
    rfl

end FirstPlaces

theorem length_le_one_iff {α : Type} {xs : List α} (h : xs.Nodup) :
    xs.length ≤ 1 ↔ ∀ x ∈ xs, ∀ y ∈ xs, x = y := by
  match xs, h with
  | [], _ => simp
  | [x], _ => simp
  | x :: y :: rest, h =>
    have hne : x ≠ y := fun heq => (nodup_cons.mp h).1 (heq ▸ mem_cons_self)
    constructor
    · intro hlength
      simp at hlength
    · intro hequal
      exact absurd (hequal x (by simp) y (by simp)) hne

/-- **Distinct texts** are those of the list, each at its first place. -/
theorem distinct_eq_eraseDups (xs : List String) : distinct xs = xs.eraseDups :=
  foldl_eraseDups [] xs

end FlowLock.Text
