import FlowLock.Checkout.Plan
import FlowLock.Proofs.Text.Blank
import FlowLock.Proofs.Text.Distinct

/-!
# Requests merged by place

A plan takes requests one by one and merges those for the same place.  What comes out is told
here without the plan: there is one target for each place, in the order in which the places are
first asked for, and each setting of a target is a function of the requests for its place.

The plan finds the target of a request through its index.  `Plan.Indexed` says that the index
tells the places of the keys and nothing else; with it `Plan.add_cases` says all that one more
request can do, and everything after that follows from these two cases.
-/

namespace FlowLock.Checkout

open List Text Option

/-! ## Depths -/

/-- The order of depths: a depth that is not given is below all numbers, and zero, which asks
for all of the history, is above the others. -/
def NoDeeper : Option Int → Option Int → Prop
  | none, _ => True
  | some _, none => False
  | some n, some m => m = 0 ∨ n ≠ 0 ∧ n ≤ m

namespace NoDeeper

variable {a b c : Option Int}

theorem refl (a : Option Int) : NoDeeper a a := by
  cases a with
  | none => trivial
  | some n => simp only [NoDeeper]; omega

theorem trans (hab : NoDeeper a b) (hbc : NoDeeper b c) : NoDeeper a c := by
  cases a <;> cases b <;> cases c <;> simp_all only [NoDeeper]
  omega

theorem antisymm (hab : NoDeeper a b) (hba : NoDeeper b a) : a = b := by
  cases a <;> cases b <;> simp_all only [NoDeeper, some.injEq]
  omega

end NoDeeper

theorem deeper_isGreatest (a b : Option Int) :
    (deeper a b = a ∨ deeper a b = b) ∧ NoDeeper a (deeper a b) ∧ NoDeeper b (deeper a b) := by
  cases a with
  | none => exact ⟨.inr rfl, trivial, .refl b⟩
  | some n =>
    cases b with
    | none => exact ⟨.inl rfl, .refl _, trivial⟩
    | some m =>
      by_cases hzero : n = 0 ∨ m = 0
      · have hall : deeper (some n) (some m) = some 0 := by simp [deeper, hzero]
        rw [hall]
        refine ⟨hzero.imp ?_ ?_, .inl rfl, .inl rfl⟩
        · rintro rfl; rfl
        · rintro rfl; rfl
      · have hmax : deeper (some n) (some m) = some (max n m) := by simp [deeper, hzero]
        simp only [hmax, NoDeeper, some.injEq]
        omega

/-- A depth that some request asks for, and none asks for a deeper one. -/
def IsDeepest (depth : Option Int) (requests : List Request) : Prop :=
  (∃ r ∈ requests, r.fetchDepth = depth) ∧ ∀ r ∈ requests, NoDeeper r.fetchDepth depth

namespace IsDeepest

variable {depth depth' : Option Int} {requests requests' : List Request}

theorem concat (h : IsDeepest depth requests) (r : Request) :
    IsDeepest (deeper depth r.fetchDepth) (requests ++ [r]) := by
  obtain ⟨⟨r', hr', rfl⟩, hle⟩ := h
  obtain ⟨hchoice, hold, hnew⟩ := deeper_isGreatest r'.fetchDepth r.fetchDepth
  constructor
  · rcases hchoice with heq | heq
    · exact ⟨r', mem_append_left _ hr', heq.symm⟩
    · exact ⟨r, by simp, heq.symm⟩
  · intro q hq
    rcases mem_append.mp hq with hq | hq
    · exact (hle q hq).trans hold
    · rw [mem_singleton.mp hq]
      exact hnew

theorem unique (h : IsDeepest depth requests) (h' : IsDeepest depth' requests')
    (hsame : ∀ r, r ∈ requests ↔ r ∈ requests') : depth = depth' := by
  obtain ⟨⟨r, hr, rfl⟩, hle⟩ := h
  obtain ⟨⟨r', hr', rfl⟩, hle'⟩ := h'
  exact (hle' r ((hsame r).mp hr)).antisymm (hle r' ((hsame r').mpr hr'))

end IsDeepest

/-! ## Texts and patterns -/

def firstGiven (texts : List String) : String := (texts.find? fun s => !s.isEmpty).getD ""

theorem firstGiven_singleton (s : String) : firstGiven [s] = s := by
  by_cases hs : s = "" <;> simp [firstGiven, hs]

theorem firstGiven_concat (texts : List String) (s : String) :
    firstGiven (texts ++ [s]) = Target.orElse (firstGiven texts) s := by
  unfold firstGiven Target.orElse
  rw [find?_append]
  cases hfound : texts.find? fun s => !s.isEmpty with
  | none => simpa [firstGiven] using firstGiven_singleton s
  | some t =>
    have ht : t.isEmpty = false := by simpa using find?_some hfound
    simp [ht]

/-- The patterns in a text: its lines without the blanks around them, those that are empty left
out. -/
def patternLines (text : String) : List String :=
  ((lines text).map trim).filter fun p => !p.isEmpty

def patternsOf (requests : List Request) : List String :=
  (requests.flatMap fun r => patternLines r.sparse).eraseDups

theorem patternLines_empty : patternLines "" = [] := by decide

theorem trim_of_mem_patternsOf {requests : List Request} {p : String}
    (h : p ∈ patternsOf requests) : trim p = p ∧ p.isEmpty = false := by
  rw [patternsOf, mem_eraseDups, mem_flatMap] at h
  obtain ⟨r, -, hp⟩ := h
  obtain ⟨hp, hne⟩ := mem_filter.mp hp
  obtain ⟨line, -, rfl⟩ := mem_map.mp hp
  exact ⟨trim_trim line, by simpa using hne⟩

theorem mergePatterns_eq {patterns : List String}
    (h : ∀ p ∈ patterns, trim p = p ∧ p.isEmpty = false) (more : String) :
    mergePatterns patterns more = (patterns ++ patternLines more).eraseDups := by
  have hkeep : (patterns.map trim).filter (fun p => !p.isEmpty) = patterns := by
    have hmap : patterns.map trim = patterns :=
      (map_congr_left fun p hp => (h p hp).1).trans (map_id patterns)
    rw [hmap, filter_eq_self]
    intro p hp
    simp [(h p hp).2]
  rw [mergePatterns, distinct_eq_eraseDups, map_append, filter_append, hkeep]
  rfl

theorem patternsOf_append (requests more : List Request) : patternsOf (requests ++ more) =
    (patternsOf requests ++ more.flatMap fun r => patternLines r.sparse).eraseDups := by
  rw [patternsOf, patternsOf, eraseDups_append_eraseDups, flatMap_append]

theorem mergePatterns_patternsOf (requests : List Request) (r : Request) :
    (if r.sparse.isEmpty then patternsOf requests
      else mergePatterns (patternsOf requests) r.sparse) = patternsOf (requests ++ [r]) := by
  rw [patternsOf_append, flatMap_singleton]
  split
  · next hempty =>
    obtain hsparse : r.sparse = "" := by simpa using hempty
    rw [hsparse, patternLines_empty, patternsOf, eraseDups_append_eraseDups, append_nil]
  · rw [mergePatterns_eq fun p hp => trim_of_mem_patternsOf hp]

/-! ## Targets -/

namespace Target

/-- A target is what some requests make together. -/
structure Merges (t : Target) (requests : List Request) : Prop where
  depth : IsDeepest t.fetchDepth requests
  ref : t.ref = firstGiven (requests.map (·.ref))
  token : t.token = firstGiven (requests.map (·.token))
  submodules : t.submodules = firstGiven (requests.map (·.submodules))
  lfs : t.lfs = requests.any (·.lfs)
  current : t.current = requests.any (·.current)
  patterns : t.patterns = patternsOf requests

@[simp] theorem key_ofRequest (r : Request) : (ofRequest r).key = r.key := rfl

@[simp] theorem key_merge (t : Target) (r : Request) : (t.merge r).key = t.key := rfl

theorem merges_ofRequest (r : Request) : (ofRequest r).Merges [r] where
  depth := ⟨⟨r, mem_singleton_self r, rfl⟩, fun q hq => by
    rw [mem_singleton.mp hq]
    exact .refl r.fetchDepth⟩
  ref := (firstGiven_singleton r.ref).symm
  token := (firstGiven_singleton r.token).symm
  submodules := (firstGiven_singleton r.submodules).symm
  lfs := by simp [ofRequest]
  current := by simp [ofRequest]
  patterns := mergePatterns_patternsOf [] r

theorem Merges.concat {t : Target} {requests : List Request} (h : t.Merges requests)
    (r : Request) : (t.merge r).Merges (requests ++ [r]) where
  depth := h.depth.concat r
  ref := by rw [map_append, map_singleton, firstGiven_concat, ← h.ref]; rfl
  token := by rw [map_append, map_singleton, firstGiven_concat, ← h.token]; rfl
  submodules := by
    rw [map_append, map_singleton, firstGiven_concat, ← h.submodules]; rfl
  lfs := by simp [merge, h.lfs]
  current := by simp [merge, h.current]
  patterns := by rw [← mergePatterns_patternsOf, ← h.patterns]; rfl

end Target

/-! ## The index -/

namespace Plan

variable {plan : Plan} {requests : List Request}

def keys (plan : Plan) : List (String × String) := plan.targets.map Target.key

/-- The index tells where the target with a key stands, and nothing else. -/
def Indexed (plan : Plan) : Prop :=
  ∀ key place, plan.index.lookup key = some place ↔ plan.keys[place]? = some key

theorem Indexed.nodup (h : plan.Indexed) : plan.keys.Nodup := by
  refine nodup_iff_getElem?_ne_getElem?.mpr fun i j hij hj heq => ?_
  have hkey : plan.keys[j]? = some plan.keys[j] := getElem?_eq_getElem hj
  have hfirst := (h _ i).mpr (heq.trans hkey)
  have hsecond := (h _ j).mpr hkey
  rw [hfirst] at hsecond
  exact absurd (some.inj hsecond) (Nat.ne_of_lt hij)

theorem Indexed.lookup_eq_none_iff (h : plan.Indexed) {key : String × String} :
    plan.index.lookup key = none ↔ key ∉ plan.keys := by
  rw [eq_none_iff_forall_ne_some, mem_iff_getElem?, not_exists]
  exact forall_congr' fun place => not_congr (h key place)

/-- **What one more request does**: it is merged into the one target with its key, or becomes a
target of its own after all others. -/
theorem add_cases (h : plan.Indexed) (r : Request) :
    (∃ before t after, plan.targets = before ++ t :: after ∧ t.key = r.key ∧
      (∀ other ∈ before ++ after, other.key ≠ r.key) ∧
      plan.add r = { plan with targets := before ++ t.merge r :: after }) ∨
    r.key ∉ plan.keys ∧ plan.add r =
        { targets := plan.targets ++ [.ofRequest r]
          index := plan.index ++ [(r.key, plan.targets.length)] } := by
  cases hfound : plan.index.lookup r.key with
  | none =>
    refine .inr ⟨h.lookup_eq_none_iff.mp hfound, ?_⟩
    simp [add, hfound]
  | some place =>
    have hkey := (h _ _).mp hfound
    rw [keys, getElem?_map, map_eq_some_iff] at hkey
    obtain ⟨t, ht, hkey⟩ := hkey
    obtain ⟨hplace, rfl⟩ := List.getElem?_eq_some_iff.mp ht
    set t := plan.targets[place]
    have hsplit : plan.targets = plan.targets.take place ++ t :: plan.targets.drop (place + 1) := by
      rw [← drop_eq_getElem_cons hplace, take_append_drop]
    refine .inl ⟨_, t, _, hsplit, hkey, ?_, ?_⟩
    · -- The keys are distinct, and the target's own stands between the others.
      have hnodup := h.nodup
      rw [keys, hsplit, map_append, map_cons] at hnodup
      have hnew := (nodup_middle.mp hnodup).notMem
      intro other hother heq
      rw [← map_append] at hnew
      exact hnew (hkey ▸ heq ▸ mem_map_of_mem hother)
    · simp only [add, hfound]
      congr 1
      rw [modify_eq_take_cons_drop hplace]

theorem keys_add (h : plan.Indexed) (r : Request) :
    (plan.add r).keys = plan.keys ++ if r.key ∈ plan.keys then [] else [r.key] := by
  rcases add_cases h r with ⟨before, t, after, htargets, hkey, -, hadd⟩ | ⟨hnew, hadd⟩
  · have hmem : r.key ∈ plan.keys := by simp [keys, htargets, ← hkey]
    rw [if_pos hmem, append_nil, keys, keys, hadd, htargets]
    simp
  · rw [if_neg hnew, keys, hadd, map_append]
    rfl

theorem Indexed.add (h : plan.Indexed) (r : Request) : (plan.add r).Indexed := by
  intro key place
  rw [keys_add h]
  rcases add_cases h r with ⟨before, t, after, htargets, hkey, -, hadd⟩ | ⟨hnew, hadd⟩
  · have hmem : r.key ∈ plan.keys := by simp [keys, htargets, ← hkey]
    rw [hadd, if_pos hmem, append_nil]
    exact h key place
  · have hlength : plan.keys.length = plan.targets.length := length_map _
    have hlast : lookup key [(r.key, plan.keys.length)] = some place ↔
        key = r.key ∧ place = plan.keys.length := by
      by_cases hkey : key = r.key
      · simp [hkey, eq_comm]
      · have hskip : (key == r.key) = false := by simpa using hkey
        simp [lookup_cons, hskip, hkey]
    rw [hadd, if_neg hnew, lookup_append, or_eq_some_iff, h key place,
      h.lookup_eq_none_iff, ← hlength, hlast, getElem?_append]
    rcases Nat.lt_trichotomy place plan.keys.length with hlt | rfl | hgt
    · simp [hlt, hlt.ne]
    · have hend : plan.keys[plan.keys.length]? = none := getElem?_eq_none (Nat.le_refl _)
      have hfresh : key = r.key → key ∉ plan.keys := fun heq => heq ▸ hnew
      simp only [hend, reduceCtorEq, false_or, lt_self_iff_false, if_false, Nat.sub_self,
        getElem?_cons_zero, some.injEq]
      exact ⟨fun hboth => hboth.2.1.symm, fun heq => ⟨hfresh heq.symm, heq.symm, trivial⟩⟩
    · have hend : plan.keys[place]? = none := getElem?_eq_none hgt.le
      have hpast : [r.key][place - plan.keys.length]? = none :=
        getElem?_eq_none (Nat.le_sub_of_add_le' hgt)
      simp [hpast, hgt.ne', Nat.lt_asymm hgt]

theorem indexed_empty : ({} : Plan).Indexed := by
  intro key place
  simp [keys]

/-- What every run of requests keeps: the index is right after each of them. -/
theorem indexed_ofRequests (requests : List Request) : (ofRequests requests).Indexed := by
  induction requests using reverseRecOn with
  | nil => exact indexed_empty
  | append_singleton requests r ih =>
    rw [ofRequests, foldl_concat]
    exact ih.add r

/-! ## Runs of requests -/

theorem ofRequests_concat (requests : List Request) (r : Request) :
    ofRequests (requests ++ [r]) = (ofRequests requests).add r := foldl_concat ..

theorem keys_ofRequests (requests : List Request) :
    (ofRequests requests).keys = (requests.map Request.key).eraseDups := by
  induction requests using reverseRecOn with
  | nil => rfl
  | append_singleton requests r ih =>
    rw [ofRequests_concat, keys_add (indexed_ofRequests requests), map_append,
      map_singleton, eraseDups_concat, ih]
    simp only [mem_eraseDups]

theorem merges_of_mem : ∀ {t : Target}, t ∈ (ofRequests requests).targets →
      t.Merges (requests.filter fun r => r.key == t.key) := by
  induction requests using reverseRecOn with
  | nil => simp [ofRequests]
  | append_singleton requests r ih =>
    intro t ht
    rw [ofRequests_concat] at ht
    -- A target with another key has the same requests as before.
    have hother : r.key ≠ t.key → t ∈ (ofRequests requests).targets →
        t.Merges ((requests ++ [r]).filter fun q => q.key == t.key) := by
      intro hne hold
      have hskip : (r.key == t.key) = false := by simpa using hne
      simpa [filter_append, hskip] using ih hold
    rcases add_cases (indexed_ofRequests requests) r with
      ⟨before, same, after, htargets, hkey, hothers, hadd⟩ | ⟨hnew, hadd⟩
    · rw [hadd, mem_append, mem_cons] at ht
      have hsame : same ∈ (ofRequests requests).targets := by simp [htargets]
      rcases ht with hbefore | rfl | hafter
      · exact hother (hothers t (by simp [hbefore])).symm (by simp [htargets, hbefore])
      · have hmerges := (ih hsame).concat r
        simpa [filter_append, hkey] using hmerges
      · exact hother (hothers t (by simp [hafter])).symm (by simp [htargets, hafter])
    · rw [hadd, mem_append, mem_singleton] at ht
      rcases ht with hold | rfl
      · exact hother (fun heq => hnew (heq ▸ mem_map_of_mem hold)) hold
      · -- No request before this one has its key.
        have hnone : (requests.filter fun q => q.key == r.key) = [] := by
          rw [keys_ofRequests, mem_eraseDups, List.mem_map] at hnew
          rw [filter_eq_nil_iff]
          exact fun q hq heq => hnew ⟨q, hq, by simpa using heq⟩
        simpa [filter_append, hnone] using Target.merges_ofRequest r

theorem exists_target_of_perm {others : List Request} (h : others.Perm requests) {t : Target}
    (ht : t ∈ (ofRequests requests).targets) :
    ∃ t' ∈ (ofRequests others).targets, t'.key = t.key ∧ t'.fetchDepth = t.fetchDepth ∧
      t'.lfs = t.lfs ∧ t'.current = t.current := by
  have hkey : t.key ∈ (ofRequests others).keys := by
    have hmem : t.key ∈ (ofRequests requests).keys := mem_map_of_mem ht
    rw [keys_ofRequests, mem_eraseDups] at hmem ⊢
    exact (h.map Request.key).mem_iff.mpr hmem
  obtain ⟨t', ht', hkey⟩ := mem_map.mp hkey
  have hmerges := merges_of_mem ht
  have hmerges' := merges_of_mem ht'
  have hperm := h.filter fun r => r.key == t.key
  rw [hkey] at hmerges'
  refine ⟨t', ht', hkey, hmerges'.depth.unique hmerges.depth fun _ => hperm.mem_iff, ?_, ?_⟩
  · rw [hmerges'.lfs, hmerges.lfs, hperm.any_eq]
  · rw [hmerges'.current, hmerges.current, hperm.any_eq]

theorem Indexed.defaultTarget?_eq (h : plan.Indexed) :
    plan.defaultTarget? = plan.targets.find? (·.isDefault) := by
  have hdefault : ∀ t : Target, t.isDefault ↔ t.key = ("", "") := by
    simp [Target.isDefault, Target.key]
  cases hfound : plan.targets.find? (·.isDefault) with
  | none =>
    have hnone : ("", "") ∉ plan.keys := by
      intro hmem
      obtain ⟨t, ht, hkey⟩ := mem_map.mp hmem
      exact find?_eq_none.mp hfound t ht ((hdefault t).mpr hkey)
    rw [defaultTarget?, h.lookup_eq_none_iff.mpr hnone]
    rfl
  | some t =>
    obtain ⟨place, hplace⟩ := mem_iff_getElem?.mp (mem_of_find?_eq_some hfound)
    have hkey : plan.keys[place]? = some ("", "") := by
      have hdef : t.isDefault := find?_some hfound
      rw [keys, getElem?_map, hplace, map_some, (hdefault t).mp hdef]
    rw [defaultTarget?, (h _ _).mpr hkey]
    exact hplace

theorem targets_of_nodup {requests : List Request} (h : (requests.map Request.key).Nodup) :
    (ofRequests requests).targets = requests.map Target.ofRequest := by
  induction requests using reverseRecOn with
  | nil => rfl
  | append_singleton requests r ih =>
    rw [map_append, map_singleton] at h
    obtain ⟨hbefore, -, hnew⟩ := nodup_append'.mp h
    have hkey : r.key ∉ (ofRequests requests).keys := by
      rw [keys_ofRequests, mem_eraseDups]
      exact disjoint_right.mp hnew (mem_singleton_self _)
    rw [ofRequests_concat, map_append, ← ih hbefore]
    rcases add_cases (indexed_ofRequests requests) r with
      ⟨before, same, after, htargets, heq, -⟩ | ⟨-, hadd⟩
    · exact absurd (List.mem_map.mpr ⟨same, by simp [htargets], heq⟩) hkey
    · rw [hadd]
      rfl

end Plan

end FlowLock.Checkout
