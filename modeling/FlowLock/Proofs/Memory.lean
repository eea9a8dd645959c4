import FlowLock.Memory
import FlowLock.Proofs.Value.Place

/-!
# Caches of earlier runs

The key of a cache ends with the id of the run, so that every run saves a cache of its own, and a
run looks for the caches of earlier runs by the start of their keys.  That start is what stands
before the id when it ends with a hyphen.  A key that is declared with the id and without a hyphen
before it gets one all the same, and then no cache is found.
-/

namespace FlowLock.CacheMemory

open List Memory Text

/-- What stands before the id of the run in a declared key ends with a hyphen. -/
def IsHyphenated (c : CacheMemory) : Prop :=
  ∀ stem, c.key = stem ++ runId → endsWith stem "-"

/-- A text in the run with an id. -/
def inRun (id text : String) : String := replaceAll text runId id

/-! ## Keys -/

/-- A key that is made from the workflow does not end with the id of the run. -/
theorem not_endsWith_workflow (start : String) :
    endsWith (start ++ Step.expression "github.workflow") runId = false := by
  rw [endsWith, ← Bool.not_eq_true, isSuffixOf_iff_suffix, String.toList_append]
  intro h
  have hshort := suffix_of_suffix_length_le h (suffix_append _ _) (by decide)
  exact absurd hshort (by decide)

theorem cacheKey_cases (c : CacheMemory) :
    (∃ stem, c.key = stem ++ runId ∧ c.cacheKey = stem ++ runId) ∨
      (∀ stem, c.key ≠ stem ++ runId) ∧ ∃ start, c.cacheKey = start ++ "-" ++ runId := by
  by_cases hends : endsWith c.key runId
  · obtain ⟨stem, hkey⟩ := endsWith_iff.mp hends
    have hne : c.key ≠ "" := by
      intro hempty
      rw [hempty] at hends
      exact absurd hends (by decide)
    exact .inl ⟨_, hkey, by simp [cacheKey, hne, hends, ← hkey]⟩
  · refine .inr ⟨fun stem heq => hends (endsWith_iff.mpr ⟨stem, heq⟩), ?_⟩
    by_cases hkey : c.key = ""
    · cases hdefault : c.isDefault
      · exact ⟨_, by simp [cacheKey, hkey, hdefault, not_endsWith_workflow]; rfl⟩
      · exact ⟨_, by simp [cacheKey, hkey, hdefault, not_endsWith_workflow]; rfl⟩
    · exact ⟨c.key, by simp [cacheKey, hkey, hends]; rfl⟩

theorem restoreKey_append (stem : String) :
    restoreKey (stem ++ runId) = if endsWith stem "-" then stem else stem ++ "-" := by
  rw [restoreKey, dropLastChars_append]

theorem restoreKey_isPrefix_iff (stem : String) :
    (restoreKey (stem ++ runId)).toList <+: (stem ++ runId).toList ↔ endsWith stem "-" := by
  rw [restoreKey_append, String.toList_append]
  constructor
  · intro h
    by_contra hends
    rw [if_neg hends, String.toList_append, prefix_append_right_inj] at h
    exact absurd h (by decide)
  · intro hends
    rw [if_pos hends]
    exact prefix_append _ _

/-! ## Runs -/

variable {cs : List Char}

/-- An occurrence of the id's expression starts with the only dollar sign in it, so none starts
before another and ends in it. -/
theorem not_isPrefix_append (hfree : ¬ runId.toList <:+: cs) (hne : cs ≠ []) :
    ¬ runId.toList <+: cs ++ runId.toList := by
  rintro ⟨after, h⟩
  rcases append_eq_append_iff.mp h with ⟨more, hcs, -⟩ | ⟨inner, hstart, hrest⟩
  · exact hfree (hcs ▸ infix_append_of_infix_left infix_rfl)
  · cases inner with
    | nil => exact hfree ⟨[], [], by rw [hstart]; simp⟩
    | cons d inner =>
      have hdollar : '$' = d := (cons.inj hrest).1
      obtain ⟨c, cs, rfl⟩ := exists_cons_of_ne_nil hne
      have hmem : '$' ∈ runId.toList.tail := by
        rw [hstart, hdollar]
        simp
      exact absurd hmem (by decide)

theorem replaceList_append (id : List Char) (hfree : ¬ runId.toList <:+: cs) (ending : List Char)
    (hending : ending = [] ∨ ending = runId.toList) :
    replaceList runId.toList id 0 (cs ++ ending) =
      cs ++ replaceList runId.toList id 0 ending := by
  induction cs with
  | nil => rfl
  | cons c cs ih =>
    have hskip : runId.toList.isPrefixOf (c :: cs ++ ending) = false := by
      rw [← Bool.not_eq_true, isPrefixOf_iff_prefix]
      rcases hending with rfl | rfl
      · exact fun h => hfree (append_nil (c :: cs) ▸ h.isInfix)
      · exact not_isPrefix_append hfree (cons_ne_nil c cs)
    rw [cons_append] at hskip ⊢
    rw [replaceList, hskip, ih fun h => hfree (infix_cons h)]
    simp

/-- **What a run looks for is the start of what every run saves**, its id put in. -/
theorem inRun_isPrefix {stem : String} (hfree : ¬ Within runId stem) (now earlier : String) :
    (inRun now stem).toList <+: (inRun earlier (stem ++ runId)).toList := by
  have hnow := replaceList_append now.toList hfree [] (.inl rfl)
  have hearlier := replaceList_append earlier.toList hfree _ (.inr rfl)
  rw [append_nil] at hnow
  rw [inRun, inRun, replaceAll, replaceAll, String.toList_ofList, String.toList_ofList,
    String.toList_append, hnow, hearlier, replaceList, append_nil]
  exact prefix_append _ _

theorem steps_of_pin (c : CacheMemory) {ctx : Context} {uses : String}
    (hpin : ctx.pin (if c.restoreOnly then "actions/cache/restore" else "actions/cache") = .ok uses) :
    ∃ create cache, c.steps ctx = .ok [create, cache] ∧
      cache.at? [.key "with", .key "key"] = some (.str c.cacheKey) ∧
      cache.at? [.key "with", .key "restore-keys"] = some (.str (restoreKey c.cacheKey)) := by
  refine ⟨_, _, by unfold steps; rw [hpin]; rfl, ?_, ?_⟩ <;>
    simp [Value.at?_obj, Step.texts, Table.get?_cons, Value.at?]

/-- **Caches of earlier runs are found by the start of their keys** when the id of the run comes
after a hyphen.  The key of a cache always ends with the id; what its step looks for is a start of
the key exactly when a declared key with the id has a hyphen before it, and then it is all before
the id.  So a cache of any earlier run is found, unless the id stands in the key once more. -/
theorem restored_by_prefix_iff (c : CacheMemory) :
    endsWith c.cacheKey runId ∧
      (∀ ctx uses, ctx.pin (if c.restoreOnly then "actions/cache/restore" else "actions/cache") =
        .ok uses → ∃ create cache, c.steps ctx = .ok [create, cache] ∧
          cache.at? [.key "with", .key "key"] = some (.str c.cacheKey) ∧
          cache.at? [.key "with", .key "restore-keys"] = some (.str (restoreKey c.cacheKey))) ∧
      ((restoreKey c.cacheKey).toList <+: c.cacheKey.toList ↔ c.IsHyphenated) ∧
      (c.IsHyphenated → restoreKey c.cacheKey ++ runId = c.cacheKey ∧
        (¬ Within runId (restoreKey c.cacheKey) → ∀ now earlier,
          (inRun now (restoreKey c.cacheKey)).toList <+: (inRun earlier c.cacheKey).toList)) := by
  obtain ⟨stem, hkey, hhyphen⟩ : ∃ stem, c.cacheKey = stem ++ runId ∧
      (c.IsHyphenated ↔ endsWith stem "-") := by
    rcases cacheKey_cases c with ⟨stem, hdeclared, hkey⟩ | ⟨hnone, start, hkey⟩
    · refine ⟨stem, hkey, fun h => h stem hdeclared, fun h other hother => ?_⟩
      rwa [← (String.append_left_inj runId).mp (hdeclared.symm.trans hother)]
    · exact ⟨start ++ "-", hkey, fun _ => endsWith_iff.mpr ⟨start, rfl⟩,
        fun _ stem hstem => absurd hstem (hnone stem)⟩
  rw [hkey, hhyphen]
  refine ⟨endsWith_iff.mpr ⟨stem, rfl⟩, fun ctx uses hpin => hkey ▸ steps_of_pin c hpin,
    restoreKey_isPrefix_iff stem, fun hends => ?_⟩
  rw [restoreKey_append, if_pos hends]
  exact ⟨rfl, inRun_isPrefix⟩

/-- A key that is declared without the hyphen. -/
theorem restoreKey_without_hyphen :
    ¬ (restoreKey ({ key := "notes" ++ runId } : CacheMemory).cacheKey).toList <+:
      ({ key := "notes" ++ runId } : CacheMemory).cacheKey.toList := by
  decide

end FlowLock.CacheMemory
