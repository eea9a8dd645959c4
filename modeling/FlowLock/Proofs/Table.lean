import FlowLock.Proofs.Text
import FlowLock.Table
import Mathlib.Data.List.Forall2

/-!
# Reading tables that were written to

A table is written key by key.  These lemmas tell what is found at a key after many
writings by what was found before them, so that no proof has to follow the places of
the keys.
-/

namespace FlowLock.Table

open List Text Option

variable {α β : Type} {key : String} {t : Table α} {a : α} {R : α → β → Prop} {e : String × α}
  {t' : Table β} {es : Table α}

theorem get?_cons (e : String × α) (t : Table α) (key : String) :
    get? (e :: t) key = if e.1 = key then some e.2 else get? t key := by
  by_cases h : e.1 = key <;> simp [get?, h]

theorem keys_append (t u : Table α) : keys (t ++ u) = keys t ++ keys u := map_append

theorem not_mem_keys_singleton {name : String} (h : name ≠ key) (a : α) :
    key ∉ keys [(name, a)] := fun hmem => h (mem_singleton.mp hmem).symm

theorem mem_keys_of_mem (h : (key, a) ∈ t) : key ∈ keys t := mem_map.mpr ⟨(key, a), h, rfl⟩

theorem get?_append (t u : Table α) (key : String) :
    get? (t ++ u) key = (get? t key).or (get? u key) := by
  induction t with
  | nil => simp [get?]
  | cons e t ih =>
    rw [cons_append, get?_cons, get?_cons, ih]
    split <;> rfl

theorem has_eq_isSome (t : Table α) (key : String) : has t key = (get? t key).isSome := by
  rw [has, get?, isSome_map, isSome_find?]

theorem mem_of_get? (h : get? t key = some a) : (key, a) ∈ t := by
  obtain ⟨e, he, rfl⟩ := map_eq_some_iff.mp h
  have hkey := find?_some he
  obtain rfl : e.1 = key := by simpa using hkey
  exact mem_of_find?_eq_some he

theorem get?_eq_none_iff : get? t key = none ↔ key ∉ keys t := by
  rw [get?, map_eq_none_iff, find?_eq_none, keys, List.mem_map]
  constructor
  · rintro h ⟨e, he, rfl⟩
    exact h e he (beq_self_eq_true e.1)
  · intro h e he hkey
    exact h ⟨e, he, beq_iff_eq.mp hkey⟩

theorem get?_of_mem (hkeys : (keys t).Nodup) (he : e ∈ t) : get? t e.1 = some e.2 := by
  induction t with
  | nil => cases he
  | cons d t ih =>
    obtain ⟨hnew, hkeys⟩ := nodup_cons.mp hkeys
    rw [get?_cons]
    rcases mem_cons.mp he with rfl | he
    · rw [if_pos rfl]
    · have hne : d.1 ≠ e.1 := fun heq => hnew (mem_map.mpr ⟨e, he, heq.symm⟩)
      rw [if_neg hne, ih hkeys he]

theorem mem_sorted : e ∈ sorted t ↔ e ∈ t :=
  mem_sortOn (fun e : String × α => e.1) e t

theorem get?_map (f : α → β) (t : Table α) (key : String) :
    get? (map (fun e => (e.1, f e.2)) t) key = (get? t key).map f := by
  induction t with
  | nil => rfl
  | cons e t ih =>
    rw [map_cons, get?_cons, get?_cons, ih]
    split <;> rfl

theorem get?_filter {p : String × α → Bool} (h : ∀ e ∈ t, e.1 = key → p e) :
    get? (filter p t) key = get? t key := by
  induction t with
  | nil => rfl
  | cons e t ih =>
    rw [forall_mem_cons] at h
    rw [filter_cons, get?_cons, ← ih h.2]
    by_cases hkey : e.1 = key
    · rw [if_pos (h.1 hkey), get?_cons]
    · rw [if_neg hkey]
      split
      · rw [get?_cons, if_neg hkey]
      · rfl

theorem get?_filterMap {t : Table (Option α)} (hkeys : (keys t).Nodup) (key : String) :
    get? (t.filterMap fun e => e.2.map fun a => (e.1, a)) key = (get? t key).join := by
  induction t with
  | nil => rfl
  | cons e t ih =>
    obtain ⟨hnew, hrest⟩ := nodup_cons.mp hkeys
    obtain ⟨name, given⟩ := e
    rw [filterMap_cons, get?_cons]
    cases given with
    | none =>
      simp only [map_none, ih hrest]
      split
      · next heq => rw [get?_eq_none_iff.mpr (heq ▸ hnew)]; rfl
      · rfl
    | some a =>
      simp only [map_some, get?_cons, ih hrest]
      split <;> rfl

/-! ## Sorting -/

theorem get?_insertOn (h : InOrder (·.1) t) (e : String × α) (key : String) :
    get? (insertOn (·.1) e t) key = (get? t key).or (if e.1 = key then some e.2 else none) := by
  induction h with
  | nil => rw [insertOn, get?_cons]; rfl
  | @cons d t hd _ ih =>
    rw [insertOn]
    split
    case isTrue hlt =>
      -- The entry goes to the front, so none of the greater keys after it is its own.
      rw [get?_cons]
      by_cases hkey : e.1 = key
      · have hnone : get? (d :: t) key = none := by
          rw [get?_eq_none_iff, ← hkey, keys, map_cons, mem_cons, List.mem_map]
          rintro (heq | ⟨z, hz, hze⟩)
          · exact String.lt_irrefl _ (heq ▸ hlt)
          · exact hd z hz (lt_of_eq_of_lt hze hlt)
        rw [hnone, none_or, if_pos hkey]
      · rw [if_neg hkey, if_neg hkey, or_none]
    case isFalse =>
      rw [get?_cons, get?_cons, ih]
      split <;> rfl

theorem get?_sorted (t : Table α) (key : String) : get? (sorted t) key = get? t key := by
  suffices h : ∀ done : Table α, InOrder (·.1) done →
      get? (t.foldl (fun done e => insertOn (·.1) e done) done) key = get? (done ++ t) key by
    simpa [sorted, sortOn] using h [] .nil
  induction t with
  | nil => intro done _; rw [foldl_nil, append_nil]
  | cons e t ih =>
    intro done hdone
    rw [foldl_cons, ih _ (hdone.insertOn e), get?_append, get?_insertOn hdone, get?_append,
      get?_cons, Option.or_assoc]
    split <;> rfl

/-! ## Tables with the same keys -/

/-- Two tables with the same keys in the same order, whose values are related. -/
def Related (R : α → β → Prop) (t : Table α) (t' : Table β) : Prop :=
  Forall₂ (fun e e' => e.1 = e'.1 ∧ R e.2 e'.2) t t'

theorem Related.keys_eq (h : Related R t t') : keys t = keys t' := by
  induction h with
  | nil => rfl
  | cons he _ ih => rw [keys, map_cons, he.1, ← keys, ih]; rfl

theorem Related.of_get? (h : Related R t t') {b : β} (ha : get? t key = some a)
    (hb : get? t' key = some b) : R a b := by
  induction h with
  | nil => cases ha
  | @cons e e' t t' he _ ih =>
    rw [get?_cons] at ha hb
    rw [← he.1] at hb
    by_cases hkey : e.1 = key
    · rw [if_pos hkey] at ha hb
      rw [← some.inj ha, ← some.inj hb]
      exact he.2
    · rw [if_neg hkey] at ha hb
      exact ih ha hb

theorem related_map {f : α → β} (hf : ∀ a, R a (f a)) (t : Table α) :
    Related R t (map (fun e => (e.1, f e.2)) t) := by
  induction t with
  | nil => exact .nil
  | cons e t ih => exact .cons ⟨rfl, hf e.2⟩ ih

/-! ## Writing at new keys only -/

theorem get?_setNew (t : Table α) (key other : String) (a : α) : get? (setNew t key a) other =
      (get? t other).or (if key = other then some a else none) := by
  rw [setNew]
  split
  case isTrue h =>
    by_cases hkey : key = other
    · subst hkey
      obtain ⟨b, hb⟩ := isSome_iff_exists.mp (has_eq_isSome t key ▸ h)
      rw [hb, some_or]
    · simp [hkey]
  case isFalse => rw [get?_append, get?_cons]; rfl

theorem get?_addNew (f : α → β) (t : Table β) (es : Table α) (key : String) :
    get? (addNew f t es) key = (get? t key).or ((get? es key).map f) := by
  induction es generalizing t with
  | nil => simp [addNew, get?]
  | cons e es ih =>
    have hstep : addNew f t (e :: es) = addNew f (setNew t e.1 (f e.2)) es := rfl
    rw [hstep, ih, get?_setNew, get?_cons, Option.or_assoc]
    by_cases h : e.1 = key <;> simp [h]

theorem keys_addNew (f : α → β) (t : Table β) (es : Table α) :
    keys (addNew f t es) =
      (keys es).foldl (fun seen key => if seen.contains key then seen else seen ++ [key])
        (keys t) := by
  induction es generalizing t with
  | nil => rfl
  | cons e es ih =>
    have hkeys : keys (setNew t e.1 (f e.2)) =
        if (keys t).contains e.1 then keys t else keys t ++ [e.1] := by
      have hhas : t.has e.1 = (keys t).contains e.1 := by
        rw [Bool.eq_iff_iff, contains_iff_mem, has_eq_isSome, isSome_iff_ne_none,
          Ne, get?_eq_none_iff, not_not]
      rw [setNew, hhas, apply_ite keys, keys_append]
      rfl
    exact (ih _).trans (by rw [hkeys]; rfl)

/-- Entries that are written nowhere may differ: all that counts are the keys and the
first values at keys that were new. -/
theorem addNew_congr (f : α → β) (t : Table β) {es' : Table α} (hkeys : keys es = keys es')
    (h : ∀ key a a', get? t key = none → get? es key = some a → get? es' key = some a' →
      f a = f a') : addNew f t es = addNew f t es' := by
  induction es generalizing t es' with
  | nil =>
    obtain rfl : es' = [] := map_eq_nil_iff.mp hkeys.symm
    rfl
  | cons e es ih =>
    obtain ⟨e', rest, rfl, hkey, hrest⟩ := map_eq_cons_iff.mp hkeys.symm
    -- A key that is in the table is skipped on both sides; a new one has equal values.
    have hset : setNew t e.1 (f e.2) = setNew t e'.1 (f e'.2) := by
      rw [setNew, setNew, hkey]
      split
      · rfl
      case isFalse hnew =>
        have hnone : get? t e.1 = none := by simpa [has_eq_isSome] using hnew
        rw [h e.1 e.2 e'.2 hnone (by simp [get?_cons]) (by simp [get?_cons, hkey])]
    have hstep : addNew f t (e :: es) = addNew f (setNew t e.1 (f e.2)) es := rfl
    have hstep' : addNew f t (e' :: rest) = addNew f (setNew t e'.1 (f e'.2)) rest := rfl
    rw [hstep, hstep', ← hset]
    apply ih _ hrest.symm
    intro key a a' hnone ha ha'
    rw [get?_setNew, or_eq_none_iff] at hnone
    have hne : e.1 ≠ key := fun heq => by simp [heq] at hnone
    apply h key a a' hnone.1
    · rw [get?_cons, if_neg hne, ha]
    · rw [get?_cons, hkey, if_neg hne, ha']

/-! ## Writing over what there is -/

theorem get?_set (t : Table α) (key other : String) (a : α) :
    get? (set t key a) other = if key = other then some a else get? t other := by
  induction t with
  | nil => rw [set, get?_cons]
  | cons e t ih =>
    rw [set]
    by_cases hkey : e.1 = key
    · rw [if_pos (beq_iff_eq.mpr hkey), get?_cons, get?_cons, ← hkey]
      split <;> rfl
    · rw [if_neg (mt beq_iff_eq.mp hkey), get?_cons, get?_cons, ih]
      by_cases hother : e.1 = other
      · rw [if_pos hother, if_neg fun heq => hkey (hother.trans heq.symm), if_pos hother]
      · rw [if_neg hother, if_neg hother]

def last? (t : Table α) (key : String) : Option α := get? (reverse t) key

theorem last?_cons (e : String × α) (t : Table α) (key : String) :
    last? (e :: t) key = (last? t key).or (if e.1 = key then some e.2 else none) := by
  rw [last?, reverse_cons, get?_append, get?_cons]
  rfl

theorem last?_eq_none_iff : last? t key = none ↔ key ∉ keys t := by
  rw [last?, get?_eq_none_iff, keys, map_reverse, mem_reverse, keys]

theorem mem_of_last? (h : last? t key = some a) : (key, a) ∈ t := mem_reverse.mp (mem_of_get? h)

theorem last?_eq_some_iff : last? t key = some a ↔
      ∃ before after, t = before ++ (key, a) :: after ∧ key ∉ keys after := by
  constructor
  · intro h
    induction t with
    | nil => cases h
    | cons e t ih =>
      rw [last?_cons] at h
      cases hlast : last? t key with
      | some b =>
        rw [hlast, some_or] at h
        obtain ⟨before, after, rfl, hafter⟩ := ih (hlast.trans h)
        exact ⟨e :: before, after, rfl, hafter⟩
      | none =>
        rw [hlast, none_or] at h
        split at h
        case isFalse => cases h
        case isTrue hkey =>
          refine ⟨[], t, ?_, last?_eq_none_iff.mp hlast⟩
          rw [← some.inj h, ← hkey]
          rfl
  · rintro ⟨before, after, rfl, hafter⟩
    have hnone : get? after.reverse key = none := last?_eq_none_iff.mpr hafter
    rw [last?, reverse_append, reverse_cons, get?_append, get?_append, hnone,
      none_or, get?_cons, if_pos rfl, some_or]

theorem get?_update (t es : Table α) (key : String) :
    get? (update t es) key = (last? es key).or (get? t key) := by
  induction es generalizing t with
  | nil => rfl
  | cons e es ih =>
    have hstep : update t (e :: es) = update (set t e.1 e.2) es := rfl
    rw [hstep, ih, get?_set, last?_cons, Option.or_assoc]
    split <;> rfl

theorem update_cons_of_not_mem {more : Table α} (h : key ∉ keys more) (a : α) (t : Table α) :
    update ((key, a) :: t) more = (key, a) :: update t more := by
  induction more generalizing t with
  | nil => rfl
  | cons e more ih =>
    obtain ⟨hne, hmore⟩ := not_or.mp (mt mem_cons.mpr h)
    have hset : set ((key, a) :: t) e.1 e.2 = (key, a) :: set t e.1 e.2 := by
      rw [set, if_neg (by simpa using hne)]
    change update (set ((key, a) :: t) e.1 e.2) more = _
    rw [hset, ih hmore]
    rfl

/-! ### Keys that are not repeated -/

theorem keys_set_of_mem (h : key ∈ keys t) (a : α) : keys (set t key a) = keys t := by
  induction t with
  | nil => cases h
  | cons e t ih =>
    rw [set]
    by_cases hkey : e.1 = key
    · rw [if_pos (beq_iff_eq.mpr hkey)]
      rfl
    · rw [if_neg (mt beq_iff_eq.mp hkey)]
      have hrest : key ∈ keys t := (mem_cons.mp h).resolve_left (Ne.symm hkey)
      exact congrArg (e.1 :: ·) (ih hrest)

theorem set_of_not_mem (h : key ∉ keys t) (a : α) : set t key a = t ++ [(key, a)] := by
  induction t with
  | nil => rfl
  | cons e t ih =>
    have hne : e.1 ≠ key := fun heq => h (heq ▸ mem_cons_self)
    rw [set, if_neg (mt beq_iff_eq.mp hne), ih fun hmem => h (mem_cons_of_mem _ hmem)]
    rfl

theorem keys_set_of_not_mem (h : key ∉ keys t) (a : α) : keys (set t key a) = keys t ++ [key] := by
  rw [set_of_not_mem h, keys_append]
  rfl

theorem update_of_nodup (h : (keys (t ++ es)).Nodup) : update t es = t ++ es := by
  induction es generalizing t with
  | nil => exact (append_nil t).symm
  | cons e es ih =>
    have hnew : e.1 ∉ keys t := by
      rw [keys_append, nodup_append] at h
      exact fun hmem => h.2.2 e.1 hmem e.1 mem_cons_self rfl
    rw [append_cons] at h ⊢
    rw [← ih h, ← set_of_not_mem hnew]
    rfl

theorem nodup_keys_set (h : (keys t).Nodup) (key : String) (a : α) :
    (keys (set t key a)).Nodup := by
  by_cases hmem : key ∈ keys t
  · rwa [keys_set_of_mem hmem]
  · rw [keys_set_of_not_mem hmem, nodup_append]
    refine ⟨h, pairwise_singleton _ key, ?_⟩
    rintro other hother _ hkey rfl
    exact hmem (mem_singleton.mp hkey ▸ hother)

theorem nodup_keys_update (h : (keys t).Nodup) (es : Table α) : (keys (update t es)).Nodup := by
  induction es generalizing t with
  | nil => exact h
  | cons e es ih => exact ih (nodup_keys_set h e.1 e.2)

theorem last?_eq_get? (h : (keys t).Nodup) (key : String) : last? t key = get? t key := by
  induction t with
  | nil => rfl
  | cons e t ih =>
    obtain ⟨hnew, hrest⟩ := nodup_cons.mp h
    rw [last?_cons, ih hrest, get?_cons]
    by_cases hkey : e.1 = key
    · have hnone : get? t key = none := get?_eq_none_iff.mpr (hkey ▸ hnew)
      rw [hnone, none_or, if_pos hkey]
    · rw [if_neg hkey, if_neg hkey, or_none]

end FlowLock.Table
