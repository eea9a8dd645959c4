import FlowLock.Proofs.Setting.Reorder

/-!
# Writing into mappings

What is put into a mapping at a key is found there, and nothing else of the mapping changes.
Mappings whose keys differ are put together entry by entry: the first keeps its keys and their
order, takes the values of the second where it has some, and the rest of the second follows.
-/

namespace FlowLock

open List Value

theorem Value.same_str_right (v : Value) (s : String) : v.same (.str s) = v.isStr s := by
  cases v <;> simp [same, isStr, number?, sameNumber?, BEq.comm]

theorem Value.isStr_iff {v : Value} {s : String} : v.isStr s ↔ v = .str s := by
  cases v with
  | str t => exact beq_iff_eq.trans (eq_comm.trans (str.injEq t s).to_iff.symm)
  | _ => simp [isStr]

theorem Value.str_same (s : String) (v : Value) : (str s).same v = v.isStr s := by
  cases v <;> rfl

namespace Entries

def Distinct (es : Entries) : Prop := es.Pairwise fun e f => e.1.same f.1 = false

/-! ## One entry -/

theorem get?_cons (e : Value × Value) (es : Entries) (key : String) :
    get? (e :: es) key = if e.1.isStr key then some e.2 else get? es key := by
  cases h : e.1.isStr key <;> simp [get?, h]

theorem get?_append (es fs : Entries) (key : String) :
    get? (es ++ fs) key = (get? es key).or (get? fs key) := by
  rw [get?, find?_append, Option.map_or]
  rfl

variable {es : Entries} {key : String}

theorem get?_eq_none_iff : get? es key = none ↔ ∀ e ∈ es, e.1.isStr key = false := by
  simp [get?]

theorem set_cons (e : Value × Value) (es : Entries) (key : String) (v : Value) :
    set (e :: es) key v = if e.1.isStr key then (e.1, v) :: es else e :: set es key v := by
  rw [set, put, same_str_right]
  rfl

theorem get?_set_self (es : Entries) (key : String) (v : Value) :
    get? (set es key v) key = some v := by
  induction es with
  | nil => simp [set, put, get?, isStr]
  | cons e es ih =>
    rw [set_cons]
    split
    · next hkey => rw [get?_cons, if_pos hkey]
    · next hkey => rw [get?_cons, if_neg hkey, ih]

theorem erase_set (es : Entries) (key : String) (v : Value) :
    erase (set es key v) key = erase es key := by
  induction es with
  | nil => simp [set, put, erase, isStr]
  | cons e es ih =>
    have hcons : ∀ (d : Value × Value) (ds : Entries),
        erase (d :: ds) key = if d.1.isStr key then erase ds key else d :: erase ds key := by
      intro d ds
      cases hd : d.1.isStr key <;> simp [erase, hd]
    rw [set_cons]
    split
    · next hkey => rw [hcons, hcons, if_pos hkey, if_pos hkey]
    · next hkey => rw [hcons, hcons, if_neg hkey, if_neg hkey, ih]

theorem keys_set {old : Value} (h : get? es key = some old) (v : Value) :
    (set es key v).map (·.1) = es.map (·.1) := by
  induction es with
  | nil => cases h
  | cons e es ih =>
    rw [set_cons]
    split
    · rfl
    · next hkey =>
      rw [get?_cons, if_neg hkey] at h
      rw [map_cons, map_cons, ih h]

theorem set_of_get? {v : Value} (h : get? es key = some v) : set es key v = es := by
  induction es with
  | nil => cases h
  | cons e es ih =>
    rw [set_cons]
    rw [get?_cons] at h
    split at h
    · next hkey => rw [if_pos hkey, ← Option.some.inj h]
    · next hkey => rw [if_neg hkey, ih h]

theorem get?_filter {p : Value × Value → Bool} (h : ∀ e ∈ es, e.1.isStr key → p e) :
    get? (filter p es) key = get? es key := by
  induction es with
  | nil => rfl
  | cons e es ih =>
    obtain ⟨he, hes⟩ := forall_mem_cons.mp h
    cases hkey : e.1.isStr key with
    | true => simp [get?_cons, hkey, he hkey]
    | false => cases hp : p e <;> simp [get?_cons, hkey, hp, ih hes]

theorem mem_set {v : Value} {e : Value × Value} (h : e ∈ set es key v) : e ∈ es ∨ e.2 = v := by
  induction es with
  | nil => exact .inr (congrArg Prod.snd (mem_singleton.mp h))
  | cons d es ih =>
    rw [set_cons] at h
    split at h
    · rcases mem_cons.mp h with rfl | h
      · exact .inr rfl
      · exact .inl (mem_cons_of_mem _ h)
    · rcases mem_cons.mp h with rfl | h
      · exact .inl mem_cons_self
      · exact (ih h).imp (mem_cons_of_mem _) id

/-! ## Many entries -/

theorem put_of_new {key : Value} (h : ∀ e ∈ es, e.1.same key = false) (v : Value) :
    put es key v = es ++ [(key, v)] := by
  induction es with
  | nil => rfl
  | cons e es ih =>
    obtain ⟨he, hes⟩ := forall_mem_cons.mp h
    rw [put, he, if_neg Bool.false_ne_true, ih hes]
    rfl

theorem update_cons (es : Entries) (e : Value × Value) (more : Entries) :
    update es (e :: more) = update (put es e.1 e.2) more := rfl

variable {more : Entries}

theorem update_nil (h : more.Distinct) : update [] more = more := by
  have hfrom : ∀ es : Entries, (es ++ more).Pairwise (fun e f => e.1.same f.1 = false) →
      update es more = es ++ more := by
    clear h
    induction more with
    | nil => intro es _; exact (append_nil es).symm
    | cons e more ih =>
      intro es hes
      have hnew : ∀ d ∈ es, d.1.same e.1 = false := fun d hd =>
        (pairwise_append.mp hes).2.2 d hd e mem_cons_self
      rw [append_cons] at hes
      rw [update_cons, put_of_new hnew, ih _ hes, ← append_cons]
  exact hfrom [] h

/-- The first entry of a mapping takes the value that the other has at its key, and the others
are put into the rest. -/
theorem update_cons_text (key : String) (v : Value) (es : Entries) (h : more.Distinct) :
    update ((.str key, v) :: es) more =
      (.str key, (get? more key).getD v) :: update es (more.filter fun e => !e.1.isStr key) := by
  induction more generalizing v es with
  | nil => rfl
  | cons e more ih =>
    obtain ⟨hnew, hmore⟩ := pairwise_cons.mp h
    rw [update_cons, put, str_same, get?_cons]
    cases hkey : e.1.isStr key with
    | true =>
      -- No later entry has the key.
      have hnone : get? more key = none := by
        rw [isStr_iff.mp hkey] at hnew
        exact get?_eq_none_iff.mpr fun f hf => (str_same _ _).symm.trans (hnew f hf)
      simp [ih _ _ hmore, hnone, hkey]
    | false => simpa [hkey, update_cons] using ih v (put es e.1 e.2) hmore

/-- **A mapping with text keys and the entries of another one**: its keys come first, with the
values of the other where it has some, and then what else the other has. -/
theorem update_texts {t : Table Value} (hkeys : (Table.keys t).Nodup) (h : more.Distinct) :
    update (t.map fun e => (.str e.1, e.2)) more =
      (t.map fun e => (.str e.1, (get? more e.1).getD e.2)) ++
        more.filter fun e => t.all fun given => !e.1.isStr given.1 := by
  induction t generalizing more with
  | nil => simpa using update_nil h
  | cons e t ih =>
    obtain ⟨hnew, hrest⟩ := nodup_cons.mp hkeys
    have hfilter : Distinct (more.filter fun d => !d.1.isStr e.1) := Pairwise.filter _ h
    have hget : ∀ d ∈ t, get? (more.filter fun d => !d.1.isStr e.1) d.1 = get? more d.1 := by
      intro d hd
      refine get?_filter fun f _ hf => ?_
      have hne : d.1 ≠ e.1 := fun heq => hnew (mem_map.mpr ⟨d, hd, heq⟩)
      rw [isStr_iff.mp hf]
      simpa [isStr] using Ne.symm hne
    rw [map_cons, update_cons_text _ _ _ h, ih hrest hfilter, map_cons, cons_append, filter_filter]
    refine congrArg₂ cons rfl (congrArg₂ (· ++ ·) ?_ ?_)
    · exact map_congr_left fun d hd => by rw [hget d hd]
    · refine filter_congr fun d _ => ?_
      rw [all_cons, Bool.and_comm]

end Entries

end FlowLock
