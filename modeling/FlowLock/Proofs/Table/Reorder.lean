import FlowLock.Proofs.Table
import Mathlib.Data.List.Nodup
import Mathlib.Data.List.Perm.Basic

/-!
# Tables in another order

Two tables can hold the same keys in another order.  What is found at a key does not tell
them apart, and neither does the sorted table; writing, filtering and mapping keep it so.
-/

namespace FlowLock

open List Table

/-! ## Sorting -/

namespace Text

variable {α : Type} (key : α → String)

theorem perm_insertOn (x : α) (ys : List α) : (insertOn key x ys).Perm (x :: ys) := by
  induction ys with
  | nil => exact .refl _
  | cons y ys ih =>
    rw [insertOn]
    split
    · exact .refl _
    · exact (ih.cons y).trans (.swap x y ys)

theorem sortOn_spec (xs : List α) : InOrder key (sortOn key xs) ∧ (sortOn key xs).Perm xs := by
  suffices h : ∀ done, InOrder key done →
      InOrder key (xs.foldl (fun done x => insertOn key x done) done) ∧
      (xs.foldl (fun done x => insertOn key x done) done).Perm (done ++ xs) from h [] .nil
  induction xs with
  | nil =>
    intro done hdone
    rw [append_nil]
    exact ⟨hdone, .refl _⟩
  | cons x xs ih =>
    intro done hdone
    obtain ⟨horder, hperm⟩ := ih _ (hdone.insertOn x)
    refine ⟨horder, hperm.trans ?_⟩
    exact ((perm_insertOn key x done).append_right xs).trans perm_middle.symm

theorem sortOn_eq_of_perm {xs ys : List α} (hperm : xs.Perm ys) (hnodup : (xs.map key).Nodup) :
    sortOn key xs = sortOn key ys := by
  obtain ⟨hxs, hxsPerm⟩ := sortOn_spec key xs
  obtain ⟨hys, hysPerm⟩ := sortOn_spec key ys
  refine Perm.eq_of_pairwise ?_ hxs hys (hxsPerm.trans (hperm.trans hysPerm.symm))
  intro x y hx hy hxy hyx
  have hx' : x ∈ xs := hxsPerm.mem_iff.mp hx
  have hy' : y ∈ xs := hperm.mem_iff.mpr (hysPerm.mem_iff.mp hy)
  have hkey : key x = key y := String.le_antisymm (String.not_lt.mp hxy) (String.not_lt.mp hyx)
  exact inj_on_of_nodup_map hnodup hx' hy' hkey

theorem forall₂_sortOn {β : Type} {key' : β → String} {R : α → β → Prop} {xs : List α}
    {ys : List β} (h : Forall₂ (fun x y => key x = key' y ∧ R x y) xs ys) :
    Forall₂ (fun x y => key x = key' y ∧ R x y) (sortOn key xs) (sortOn key' ys) := by
  have hinsert : ∀ {x y xs ys}, (key x = key' y ∧ R x y) →
      Forall₂ (fun x y => key x = key' y ∧ R x y) xs ys →
      Forall₂ (fun x y => key x = key' y ∧ R x y) (insertOn key x xs) (insertOn key' y ys) := by
    intro x y xs ys hxy h
    induction h with
    | nil => exact .cons hxy .nil
    | cons hzw h ih =>
      rw [insertOn, insertOn, hxy.1, hzw.1]
      split
      · exact .cons hxy (.cons hzw h)
      · exact .cons hzw ih
  suffices hdone : ∀ {done done'}, Forall₂ (fun x y => key x = key' y ∧ R x y) done done' →
      Forall₂ (fun x y => key x = key' y ∧ R x y)
        (xs.foldl (fun done x => insertOn key x done) done)
        (ys.foldl (fun done y => insertOn key' y done) done') from hdone .nil
  induction h with
  | nil => exact id
  | cons hxy _ ih => exact fun hdone => ih (hinsert hxy hdone)

theorem sortOn_map {β : Type} {key' : β → String} {f : α → β} (hf : ∀ x, key x = key' (f x))
    (xs : List α) : sortOn key' (xs.map f) = (sortOn key xs).map f := by
  have hrelated : Forall₂ (fun x y => key x = key' y ∧ f x = y) xs (xs.map f) :=
    forall₂_map_right_iff.mpr (forall₂_same.mpr fun x _ => ⟨hf x, rfl⟩)
  have hsorted := (forall₂_sortOn key hrelated).imp fun _ _ h => h.2
  rw [← forall₂_map_left_iff, forall₂_eq_eq_eq] at hsorted
  exact hsorted.symm

end Text

namespace Table

variable {α β : Type} {t t' u u' : Table α} {R : String → α → α → Prop} {key : String}

/-! ## The same keys -/

/-- Two tables without repeated keys that have the same keys, in any order, and related
values at each of them. -/
structure Reordered (R : String → α → β → Prop) (t : Table α) (t' : Table β) : Prop where
  nodup : (keys t).Nodup
  nodup' : (keys t').Nodup
  related : ∀ key, Option.Rel (R key) (get? t key) (get? t' key)

theorem Reordered.symm {R : String → α → β → Prop} {S : String → β → α → Prop}
    (hRS : ∀ key a b, R key a b → S key b a) {t' : Table β} (h : Reordered R t t') :
    Reordered S t' t where
  nodup := h.nodup'
  nodup' := h.nodup
  related key := by
    have hrel := h.related key
    generalize get? t key = a, get? t' key = b at hrel
    cases hrel with
    | some hab => exact .some (hRS key _ _ hab)
    | none => exact .none

theorem Reordered.cons_same (hR : ∀ key a, R key a a) {a a' : α} (h : R key a a')
    (hnodup : (keys ((key, a) :: t)).Nodup) : Reordered R ((key, a) :: t) ((key, a') :: t) where
  nodup := hnodup
  nodup' := hnodup
  related other := by
    rw [get?_cons, get?_cons]
    split
    · next hkey => exact .some (hkey ▸ h)
    · cases get? t other with
      | none => exact .none
      | some b => exact .some (hR other b)

theorem Reordered.exists_of_get? {R : String → α → β → Prop} {t' : Table β} (h : Reordered R t t')
    {b : β} (hb : get? t' key = some b) : ∃ a, get? t key = some a ∧ R key a b := by
  have hrel := h.related key
  rw [hb] at hrel
  generalize get? t key = a at hrel
  cases hrel with
  | some hab => exact ⟨_, rfl, hab⟩

theorem Reordered.mem_keys_iff {R : String → α → β → Prop} {t' : Table β} (h : Reordered R t t')
    (key : String) : key ∈ keys t ↔ key ∈ keys t' := by
  rw [← not_iff_not, ← get?_eq_none_iff, ← get?_eq_none_iff]
  have hrel := h.related key
  generalize get? t key = a, get? t' key = b at hrel
  cases hrel <;> simp

theorem Related.exists_of_get? {R : α → β → Prop} {t' : Table β} (h : Related R t t') {a : α}
    (ha : get? t key = some a) : ∃ b, get? t' key = some b ∧ R a b := by
  cases hb : get? t' key with
  | some b => exact ⟨b, rfl, h.of_get? ha hb⟩
  | none =>
    rw [get?_eq_none_iff, ← h.keys_eq, ← get?_eq_none_iff, ha] at hb
    cases hb

/-! ## The same entries -/

/-- Two tables without repeated keys that have the same entries, in any order. -/
def Shuffled (t t' : Table α) : Prop := Reordered (fun _ => Eq) t t'

namespace Shuffled

theorem of_get? (hnodup : (keys t).Nodup) (hnodup' : (keys t').Nodup)
    (h : ∀ key, get? t key = get? t' key) : Shuffled t t' where
  nodup := hnodup
  nodup' := hnodup'
  related key := by
    rw [h key]
    cases get? t' key with
    | none => exact .none
    | some a => exact .some rfl

theorem refl (hnodup : (keys t).Nodup) : Shuffled t t := of_get? hnodup hnodup fun _ => rfl

theorem get?_eq (h : Shuffled t t') (key : String) : get? t key = get? t' key := by
  have hrel := h.related key
  generalize get? t key = a, get? t' key = b at hrel
  cases hrel with
  | some heq => rw [heq]
  | none => rfl

theorem symm (h : Shuffled t t') : Shuffled t' t := Reordered.symm (fun _ _ _ heq => heq.symm) h

theorem mem_of_mem (h : Shuffled t t') {e : String × α} (he : e ∈ t) : e ∈ t' :=
  mem_of_get? ((h.get?_eq e.1).symm.trans (get?_of_mem h.nodup he))

theorem perm (h : Shuffled t t') : t.Perm t' :=
  (perm_ext_iff_of_nodup (Nodup.of_map _ h.nodup) (Nodup.of_map _ h.nodup')).mpr
    fun _ => ⟨h.mem_of_mem, h.symm.mem_of_mem⟩

theorem of_perm (hnodup : (keys t).Nodup) (hperm : t.Perm t') : Shuffled t t' := by
  have hnodup' : (keys t').Nodup := (hperm.map _).nodup_iff.mp hnodup
  have hmem : ∀ {t : Table α} {key : String} {a : α}, (keys t).Nodup →
      (get? t key = some a ↔ (key, a) ∈ t) := fun ht => ⟨mem_of_get?, get?_of_mem ht⟩
  refine of_get? hnodup hnodup' fun key => Option.ext fun a => ?_
  rw [hmem hnodup, hmem hnodup', hperm.mem_iff]

theorem isEmpty_eq (h : Shuffled t t') : t.isEmpty = t'.isEmpty := h.perm.isEmpty_eq

theorem sorted_eq (h : Shuffled t t') : sorted t = sorted t' :=
  Text.sortOn_eq_of_perm _ h.perm h.nodup

/-! ### What keeps the entries -/

theorem map (h : Shuffled t t') (f : α → β) :
    Shuffled (List.map (fun e => (e.1, f e.2)) t) (List.map (fun e => (e.1, f e.2)) t') := by
  have hkeys : ∀ t : Table α, keys (List.map (fun e => (e.1, f e.2)) t) = keys t := fun t =>
    map_map
  refine of_get? ?_ ?_ fun key => ?_
  · rw [hkeys]
    exact h.nodup
  · rw [hkeys]
    exact h.nodup'
  · rw [get?_map, get?_map, h.get?_eq]

theorem filter (h : Shuffled t t') (p : String × α → Bool) :
    Shuffled (filter p t) (filter p t') :=
  of_perm (h.nodup.sublist (filter_sublist.map _)) (h.perm.filter p)

theorem update_of_last? (h : Shuffled t t') (hu : ∀ key, last? u key = last? u' key) :
    Shuffled (update t u) (update t' u') := by
  refine of_get? (nodup_keys_update h.nodup u) (nodup_keys_update h.nodup' u') fun key => ?_
  rw [get?_update, get?_update, hu, h.get?_eq]

theorem update (h : Shuffled t t') (hu : Shuffled u u') :
    Shuffled (update t u) (update t' u') :=
  h.update_of_last? fun key => by
    rw [last?_eq_get? hu.nodup, last?_eq_get? hu.nodup', hu.get?_eq]

end Shuffled

theorem Reordered.of_perm (hnodup : (keys t).Nodup)
    (h : Forall₂ (fun e e' => e.1 = e'.1 ∧ R e.1 e.2 e'.2) t u) (hperm : u.Perm t') :
    Reordered R t t' := by
  have hkeys : keys t = keys u :=
    Related.keys_eq (R := fun _ _ => True) (h.imp fun _ _ he => ⟨he.1, trivial⟩)
  have hshuffled := Shuffled.of_perm (hkeys ▸ hnodup) hperm
  refine ⟨hnodup, hshuffled.nodup', fun key => ?_⟩
  rw [← hshuffled.get?_eq]
  clear hnodup hperm hkeys hshuffled
  induction h with
  | nil => exact .none
  | cons he _ ih =>
    rw [get?_cons, get?_cons, ← he.1]
    split
    · next hkey => exact .some (hkey ▸ he.2)
    · exact ih

/-- What belongs to the values of a table belongs, in another order, to those of a table
in another order. -/
theorem Related.exists_shuffled {S : α → β → Prop} {u : Table β} (hu : Related S t u)
    (h : Reordered R t t') (hS : ∀ key a a' b, R key a a' → S a b → S a' b) :
    ∃ u', Related S t' u' ∧ Shuffled u u' := by
  have hfound : ∀ e ∈ t', ∃ b, get? u e.1 = some b ∧ S e.2 b := by
    intro e he
    obtain ⟨a, ha, hrel⟩ := h.exists_of_get? (get?_of_mem h.nodup' he)
    obtain ⟨b, hb, hab⟩ := hu.exists_of_get? ha
    exact ⟨b, hb, hS _ _ _ _ hrel hab⟩
  obtain ⟨u', hu', hget⟩ : ∃ u', Related S t' u' ∧ ∀ d ∈ u', get? u d.1 = some d.2 := by
    clear h
    induction t' with
    | nil => exact ⟨[], .nil, by simp⟩
    | cons e t' ih =>
      obtain ⟨⟨b, hb, hSb⟩, htail⟩ := forall_mem_cons.mp hfound
      obtain ⟨u', hu', hget⟩ := ih htail
      exact ⟨(e.1, b) :: u', .cons ⟨rfl, hSb⟩ hu', forall_mem_cons.mpr ⟨hb, hget⟩⟩
  refine ⟨u', hu', .of_get? (hu.keys_eq ▸ h.nodup) (hu'.keys_eq ▸ h.nodup') fun key => ?_⟩
  cases hd : get? u' key with
  | some b => exact hget _ (mem_of_get? hd)
  | none =>
    rw [get?_eq_none_iff, ← hu'.keys_eq, ← h.mem_keys_iff, hu.keys_eq] at hd
    exact get?_eq_none_iff.mpr hd

end Table

end FlowLock
