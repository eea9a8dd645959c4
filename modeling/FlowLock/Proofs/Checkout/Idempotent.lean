import FlowLock.Proofs.Checkout.Merge
import FlowLock.Proofs.Text.Split

/-!
# Merged requests merge to themselves

A target can be asked for like anything else: it is turned back into a request, with its patterns
one in a line.  Its settings are in a form that merging leaves alone, which is what
`Target.IsSettled` says, so the requests of all targets make the same plan again, and asking for
one of them once more changes nothing.
-/

namespace FlowLock.Checkout

open List Text

/-- Patterns in the form that merging gives them. -/
structure IsPatterns (patterns : List String) : Prop where
  distinct : patterns.eraseDups = patterns
  trimmed : ∀ p ∈ patterns, trim p = p ∧ p.isEmpty = false
  oneLine : ∀ p ∈ patterns, '\n' ∉ p.toList

theorem isPatterns_patternsOf (requests : List Request) : IsPatterns (patternsOf requests) where
  distinct := by
    have hagain :=
      eraseDups_append_eraseDups (requests.flatMap fun r => patternLines r.sparse) []
    rwa [append_nil, append_nil] at hagain
  trimmed _ := trim_of_mem_patternsOf
  oneLine p hp := by
    rw [patternsOf, mem_eraseDups, mem_flatMap] at hp
    obtain ⟨r, -, hp⟩ := hp
    obtain ⟨line, hline, rfl⟩ := mem_map.mp (mem_filter.mp hp).1
    obtain ⟨cs, hcs, rfl⟩ := mem_map.mp hline
    have hfree : '\n' ∉ cs := not_mem_of_mem_splitList hcs
    exact fun hmem => hfree (by simpa using (trim_isInfix _).subset hmem)

namespace IsPatterns

variable {patterns : List String}

theorem patternLines_unlines (h : IsPatterns patterns) :
    patternLines (unlines patterns) = patterns := by
  by_cases hne : patterns = []
  · rw [hne]
    exact patternLines_empty
  · have hlines : lines (unlines patterns) = patterns :=
      (splitOn_eq_iff hne).mpr ⟨rfl, h.oneLine⟩
    have htrim : patterns.map trim = patterns :=
      (map_congr_left fun p hp => (h.trimmed p hp).1).trans (map_id patterns)
    rw [patternLines, hlines, htrim, filter_eq_self]
    intro p hp
    simp [(h.trimmed p hp).2]

theorem mergePatterns_unlines (h : IsPatterns patterns) {earlier : List String}
    (hearlier : earlier = [] ∨ earlier = patterns) :
    (if (unlines patterns).isEmpty then earlier
      else mergePatterns earlier (unlines patterns)) = patterns := by
  have hall : ∀ p ∈ earlier, trim p = p ∧ p.isEmpty = false := by
    obtain rfl | rfl := hearlier
    · exact forall_mem_nil _
    · exact h.trimmed
  have hlines := h.patternLines_unlines
  split
  · next hempty =>
    -- A text without characters has no patterns.
    obtain htext : unlines patterns = "" := by simpa using hempty
    rw [htext, patternLines_empty] at hlines
    obtain rfl | rfl := hearlier
    · exact hlines
    · rfl
  · rw [mergePatterns_eq hall, hlines]
    obtain rfl | rfl := hearlier
    · rw [nil_append, h.distinct]
    · have hnone : earlier.removeAll earlier = [] :=
        filter_eq_nil_iff.mpr fun p hp => by simpa using hp
      rw [eraseDups_append, h.distinct, hnone, eraseDups_nil, append_nil]

end IsPatterns

namespace Target

variable {t : Target}

structure IsSettled (t : Target) : Prop where
  path : normalPath t.path = t.path
  patterns : IsPatterns t.patterns

theorem key_toRequest (h : t.IsSettled) : t.toRequest.key = t.key := by
  rw [Request.key, toRequest, key, h.path]

/-- **A settled target is the target of its own request.** -/
theorem ofRequest_toRequest (h : t.IsSettled) : ofRequest t.toRequest = t := by
  have hpatterns := h.patterns.mergePatterns_unlines (.inl rfl)
  rw [ofRequest, toRequest]
  dsimp only
  rw [h.path, hpatterns]

/-- **Its own request adds nothing to a settled target.** -/
theorem merge_toRequest (h : t.IsSettled) : t.merge t.toRequest = t := by
  have hpatterns := h.patterns.mergePatterns_unlines (.inr rfl)
  have hdepth : deeper t.fetchDepth t.fetchDepth = t.fetchDepth := by
    obtain ⟨hsame | hsame, -⟩ := deeper_isGreatest t.fetchDepth t.fetchDepth <;> exact hsame
  have htext : ∀ s, orElse s s = s := fun s => ite_self s
  rw [merge, toRequest]
  dsimp only
  rw [hpatterns, hdepth, htext, htext, htext, Bool.or_self, Bool.or_self]

end Target

namespace Plan

variable {plan : Plan}

theorem isSettled_of_mem {requests : List Request} {t : Target}
    (ht : t ∈ (ofRequests requests).targets) : t.IsSettled where
  path := by
    have hkey : t.key ∈ (ofRequests requests).keys := mem_map_of_mem ht
    rw [keys_ofRequests, mem_eraseDups] at hkey
    obtain ⟨r, -, hr⟩ := mem_map.mp hkey
    have hpath : t.path = normalPath r.path := (congrArg Prod.snd hr).symm
    rw [hpath]
    by_cases hdot : r.path = "." <;> simp [normalPath, hdot]
  patterns := (merges_of_mem ht).patterns ▸ isPatterns_patternsOf _

theorem add_toRequest (h : plan.Indexed) {t : Target} (ht : t ∈ plan.targets)
    (hsettled : t.IsSettled) : plan.add t.toRequest = plan := by
  rcases add_cases h t.toRequest with
    ⟨before, same, after, htargets, hkey, hothers, hadd⟩ | ⟨hnew, -⟩
  · rw [Target.key_toRequest hsettled] at hkey hothers
    -- The target with its key is the one that is asked for.
    obtain rfl : t = same := by
      have hmem := ht
      rw [htargets, mem_append, mem_cons] at hmem
      obtain hbefore | heq | hafter := hmem
      · exact absurd rfl (hothers t (mem_append_left _ hbefore))
      · exact heq
      · exact absurd rfl (hothers t (mem_append_right _ hafter))
    rw [hadd, Target.merge_toRequest hsettled, ← htargets]
  · rw [Target.key_toRequest hsettled] at hnew
    exact absurd (mem_map_of_mem ht) hnew

theorem targets_ofRequests_toRequest {targets : List Target}
    (hkeys : (targets.map Target.key).Nodup) (hsettled : ∀ t ∈ targets, t.IsSettled) :
    (ofRequests (targets.map Target.toRequest)).targets = targets := by
  have hkey : (targets.map Target.toRequest).map Request.key = targets.map Target.key := by
    rw [map_map]
    exact map_congr_left fun t ht => Target.key_toRequest (hsettled t ht)
  rw [targets_of_nodup (hkey ▸ hkeys), map_map]
  exact (map_congr_left fun t ht => Target.ofRequest_toRequest (hsettled t ht)).trans (map_id _)

/-- Whatever targets are asked for again, in any order, the plan stays as it is. -/
theorem foldl_add_toRequest (h : plan.Indexed) {again : List Target}
    (hagain : ∀ t ∈ again, t ∈ plan.targets ∧ t.IsSettled) :
    (again.map Target.toRequest).foldl add plan = plan := by
  induction again with
  | nil => rfl
  | cons t again ih =>
    obtain ⟨⟨ht, hsettled⟩, hagain⟩ := forall_mem_cons.mp hagain
    rw [map_cons, foldl_cons, add_toRequest h ht hsettled, ih hagain]

/-- **Merged requests merge to themselves.**  Whatever the requests were, the targets of their
plan, turned back into requests and given to a new plan, are its targets, in the same order; and
so they are when the requests are given any number of times. -/
theorem merged_requests_merge_to_themselves (requests : List Request) (times : Nat) :
    (ofRequests (replicate (times + 1)
      ((ofRequests requests).targets.map Target.toRequest)).flatten).targets =
      (ofRequests requests).targets := by
  generalize htargets : (ofRequests requests).targets = targets
  have hsettled : ∀ t ∈ targets, t.IsSettled := fun t ht => isSettled_of_mem (htargets ▸ ht)
  have hfirst : (ofRequests (targets.map Target.toRequest)).targets = targets :=
    targets_ofRequests_toRequest (htargets ▸ (indexed_ofRequests requests).nodup) hsettled
  have hmore : (replicate times (targets.map Target.toRequest)).flatten =
      (replicate times targets).flatten.map Target.toRequest := by
    rw [map_flatten, map_replicate]
  rw [replicate_succ, flatten_cons, hmore, ofRequests, foldl_append]
  have hagain : ∀ t ∈ (replicate times targets).flatten,
      t ∈ (ofRequests (targets.map Target.toRequest)).targets ∧ t.IsSettled := by
    intro t ht
    obtain ⟨ts, hts, ht⟩ := mem_flatten.mp ht
    rw [eq_of_mem_replicate hts] at ht
    exact ⟨by rwa [hfirst], hsettled t ht⟩
  exact (congrArg Plan.targets (foldl_add_toRequest (indexed_ofRequests _) hagain)).trans hfirst

end Plan

/-! ## Patterns text by text -/

/-- A request for each text of patterns. -/
def ofTexts (texts : List String) : List Request := texts.map fun text => { sparse := text }

theorem foldl_mergePatterns (texts : List String) :
    texts.foldl mergePatterns [] = patternsOf (ofTexts texts) := by
  induction texts using reverseRecOn with
  | nil => rfl
  | append_singleton texts text ih =>
    rw [foldl_concat, ih, mergePatterns_eq fun p hp => trim_of_mem_patternsOf hp, ofTexts, ofTexts,
      map_append, patternsOf_append]
    simp

theorem patternLines_unlines (texts : List String) :
    patternLines (unlines texts) = texts.flatMap patternLines := by
  induction texts with
  | nil => exact patternLines_empty
  | cons text texts ih =>
    cases texts with
    | nil => simp [unlines]
    | cons next texts =>
      rw [flatMap_cons, ← ih, patternLines, unlines, String.intercalate_cons_cons,
        lines_append, map_append, filter_append]
      rfl

/-- **Patterns can be merged text by text.**  Merging texts of patterns one after the other gives
what merging all of their lines at once does.  The patterns are distinct, trimmed and one in a
line each, those of the first texts come first, and they are read back from what a step is told. -/
theorem patterns_merge_text_by_text (texts : List String) :
    texts.foldl mergePatterns [] = mergePatterns [] (unlines texts) ∧
      (texts.foldl mergePatterns []).Nodup ∧
      (∀ p ∈ texts.foldl mergePatterns [], p ≠ "" ∧ trim p = p ∧ '\n' ∉ p.toList) ∧
      (∀ first, first <+: texts →
        first.foldl mergePatterns [] <+: texts.foldl mergePatterns []) ∧
      mergePatterns [] (unlines (texts.foldl mergePatterns []) ++ "\n") =
        texts.foldl mergePatterns [] := by
  have hpatterns := isPatterns_patternsOf (ofTexts texts)
  have honce : ∀ text, mergePatterns [] text = (patternLines text).eraseDups := fun text => by
    rw [mergePatterns_eq (forall_mem_nil _), nil_append]
  rw [foldl_mergePatterns]
  refine ⟨?_, nodup_eraseDups _, fun p hp => ⟨?_, (hpatterns.trimmed p hp).1,
    hpatterns.oneLine p hp⟩, ?_, ?_⟩
  · rw [honce, patternLines_unlines, patternsOf, ofTexts, flatMap_map]
  · simpa using (hpatterns.trimmed p hp).2
  · rintro first ⟨more, rfl⟩
    rw [foldl_mergePatterns, ofTexts, ofTexts, map_append, patternsOf_append, eraseDups_append,
      (isPatterns_patternsOf _).distinct]
    exact prefix_append _ _
  · -- The last line is empty.
    have hlast : unlines (patternsOf (ofTexts texts)) ++ "\n" =
        unlines [unlines (patternsOf (ofTexts texts)), ""] := by
      simp [unlines]
    rw [honce, hlast, patternLines_unlines, flatMap_cons, flatMap_singleton, patternLines_empty,
      append_nil, hpatterns.patternLines_unlines, hpatterns.distinct]

end FlowLock.Checkout
