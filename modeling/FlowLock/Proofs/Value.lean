import FlowLock.Proofs.Table
import FlowLock.Value.Basic
import Mathlib.Data.List.Perm.Subperm

/-!
# Equality of values

Values of front matter are equal by `Value.same`, which knows nothing of the order of
entries and tells numbers of different kinds apart by their value only.  On texts, on
lists of texts and on numbers of one kind it is equality; on mappings with text keys it
is equality key by key.
-/

namespace FlowLock

open Table List

namespace Value

/-- The values of two tables at a key are equal, or there is none in both. -/
def SameAt (t t' : Table Value) (key : String) : Prop :=
  Option.Rel (fun a b => a.same b = true) (t.get? key) (t'.get? key)

theorem eachEntryIn_iff {es es' : Entries} : eachEntryIn es es' ↔
      ∀ e ∈ es, ∃ e' ∈ es', e.1.same e'.1 ∧ e.2.same e'.2 := by
  induction es with
  | nil => simp [eachEntryIn]
  | cons e es ih =>
    obtain ⟨k, v⟩ := e
    simp [eachEntryIn, sameEntry, ih]

@[simp] theorem same_str (s s' : String) : (str s).same (str s') ↔ s = s' :=
  (beq_iff_eq : (s == s') ↔ s = s')

@[simp] theorem same_int (n n' : Int) : (int n).same (int n') ↔ n = n' :=
  (beq_iff_eq : (n == n') ↔ n = n')

@[simp] theorem same_bool (b b' : Bool) : (bool b).same (bool b') ↔ b = b' := by
  cases b <;> cases b' <;> decide

@[simp] theorem same_strs (xs xs' : List String) : (strs xs).same (strs xs') ↔ xs = xs' := by
  have hall : sameAll (xs.map str) (xs'.map str) ↔ xs = xs' := by
    induction xs generalizing xs' with
    | nil => cases xs' <;> simp [sameAll]
    | cons x xs ih => cases xs' <;> simp [sameAll, ih]
  exact hall

theorem sameAt_of_same_obj {t t' : Table Value} (hnodup : (keys t).Nodup)
    (hnodup' : (keys t').Nodup) (h : (obj t).same (obj t')) (key : String) :
    SameAt t t' key := by
  simp only [obj, same, Bool.and_eq_true, beq_iff_eq, length_map] at h
  obtain ⟨hlength, heach⟩ := h
  have hentry : ∀ e ∈ t, ∃ e' ∈ t', e.1 = e'.1 ∧ e.2.same e'.2 := by
    intro e he
    obtain ⟨d, hd, hkey, hvalue⟩ := eachEntryIn_iff.mp heach _ (mem_map_of_mem he)
    obtain ⟨e', he', rfl⟩ := mem_map.mp hd
    exact ⟨e', he', (same_str _ _).mp hkey, hvalue⟩
  -- The keys of the first are among those of the second, and there are as many.
  have hsubset : keys t ⊆ keys t' := by
    intro k hk
    obtain ⟨e, he, rfl⟩ := mem_map.mp hk
    obtain ⟨e', he', hkey, -⟩ := hentry e he
    exact hkey ▸ mem_map_of_mem he'
  have hperm : (keys t).Perm (keys t') :=
    (hnodup.subperm hsubset).perm_of_length_le (by simp [Table.keys, hlength])
  cases hget : t.get? key with
  | none =>
    have hget' : t'.get? key = none := by
      rw [get?_eq_none_iff] at hget ⊢
      rwa [← hperm.mem_iff]
    rw [SameAt, hget, hget']
    exact .none
  | some a =>
    obtain ⟨e', he', hkey, hvalue⟩ := hentry _ (mem_of_get? hget)
    obtain rfl : key = e'.1 := hkey
    rw [SameAt, hget, get?_of_mem hnodup' he']
    exact .some hvalue

end Value

end FlowLock
