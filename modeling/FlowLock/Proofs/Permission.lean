import FlowLock.Permission
import Mathlib.Data.List.Nodup

/-!
# Permissions scope by scope

Permissions are looked at through the level of each scope.  Absence counts as a level below
all others, so a join is a maximum and a meet a minimum, and the join of many is the highest
level that one of them has.
-/

namespace FlowLock.Permissions

open List Text Entries Value

/-! ## Levels by scope -/

theorem mem_all (scope : Scope) : scope ∈ Scope.all := by
  cases scope <;> decide

variable {scope : Scope}

private theorem find?_filterMap (level? : Scope → Option Level) {scopes : List Scope}
    (hnodup : scopes.Nodup) (hmem : scope ∈ scopes) :
    ((scopes.filterMap fun s => (level? s).map fun l => (s, l)).find? fun g => g.1 == scope).map
      (·.2) = level? scope := by
  -- A scope that is not listed has no grant.
  have hnone : ∀ {scopes : List Scope}, scope ∉ scopes →
      (scopes.filterMap fun s => (level? s).map fun l => (s, l)).find? (fun g => g.1 == scope) =
        none := by
    intro scopes hout
    simp only [find?_eq_none, mem_filterMap, Option.map_eq_some_iff]
    rintro _ ⟨s, hs, l, -, rfl⟩ heq
    exact hout ((show s = scope by simpa using heq) ▸ hs)
  induction scopes with
  | nil => simp at hmem
  | cons s scopes ih =>
    obtain ⟨hs, hnodup⟩ := nodup_cons.mp hnodup
    cases hlevel : level? s with
    | none =>
      rw [filterMap_cons_none (by simp [hlevel])]
      rcases mem_cons.mp hmem with rfl | hmem
      · rw [hnone hs, hlevel]
        rfl
      · exact ih hnodup hmem
    | some l =>
      rw [filterMap_cons_some (b := (s, l)) (by simp [hlevel])]
      by_cases heq : s = scope
      · subst heq
        simp [hlevel]
      · have hmem := (mem_cons.mp hmem).resolve_left (Ne.symm heq)
        rw [find?_cons_of_neg (by simpa using heq)]
        exact ih hnodup hmem

@[simp] theorem get_ofFun (level? : Scope → Option Level) (scope : Scope) :
    (ofFun level?).get scope = level? scope :=
  find?_filterMap level? (by decide) (mem_all scope)

@[simp] theorem get_empty (scope : Scope) : empty.get scope = none := rfl

@[simp] theorem get_set (p : Permissions) (changed : Scope) (level : Level) (scope : Scope) :
    (p.set changed level).get scope = if scope == changed then some level else p.get scope := by
  simp [set]

@[simp] theorem get_remove (p : Permissions) (changed scope : Scope) :
    (p.remove changed).get scope = if scope == changed then none else p.get scope := by
  simp [remove]

@[simp] theorem get_join (p q : Permissions) (scope : Scope) :
    (p.join q).get scope = higher (p.get scope) (q.get scope) := by
  simp [join]

@[simp] theorem higher_none (level : Option Level) : higher level none = level := by
  cases level <;> rfl

@[simp] theorem get_meet (p q : Permissions) (scope : Scope) :
    (p.meet q).get scope = lower (p.get scope) (q.get scope) := by
  simp [meet]

variable {grants : List (Scope × Level)}

theorem get_ofGrants_of_not_mem (h : scope ∉ grants.map (·.1)) :
    (ofGrants grants).get scope = none := by
  have hfold : ∀ p : Permissions, p.get scope = none →
      (grants.foldl (fun p g => p.set g.1 g.2) p).get scope = none := by
    induction grants with
    | nil => exact fun p hp => hp
    | cons g grants ih =>
      simp only [map_cons, mem_cons, not_or] at h
      intro p hp
      refine ih h.2 _ ?_
      simp [h.1, hp]
  exact hfold empty rfl

/-! ## Permissions as data -/

/-- The grants stand in the order of the scopes, one for each, so that the levels tell the
permissions. -/
def IsOrdered (p : Permissions) : Prop := ofFun p.get = p

theorem isOrdered_ofFun (level? : Scope → Option Level) : (ofFun level?).IsOrdered := by
  have hget : (ofFun level?).get = level? := funext (get_ofFun level?)
  rw [IsOrdered, hget]

theorem isOrdered_empty : empty.IsOrdered := rfl

theorem isOrdered_joinAll (ps : List Permissions) : (joinAll ps).IsOrdered := by
  rcases ps.eq_nil_or_concat' with rfl | ⟨ps, p, rfl⟩
  · exact isOrdered_empty
  · rw [joinAll, foldl_append]
    exact isOrdered_ofFun _

variable {p : Permissions}

theorem IsOrdered.ext {q : Permissions} (hp : p.IsOrdered) (hq : q.IsOrdered)
    (h : ∀ scope, p.get scope = q.get scope) : p = q := by
  rw [← hp, ← hq, funext h]

/-- Grants given one after the other, each for a scope of its own. -/
theorem get_foldl_set (hnodup : (grants.map (·.1)).Nodup) (p : Permissions) (scope : Scope) :
    (grants.foldl (fun p g => p.set g.1 g.2) p).get scope =
      ((mk grants).get scope).or (p.get scope) := by
  induction grants generalizing p with
  | nil => rfl
  | cons g grants ih =>
    obtain ⟨hg, hnodup⟩ := nodup_cons.mp hnodup
    rw [foldl_cons, ih hnodup, get_set]
    by_cases heq : g.1 = scope
    · subst heq
      have hnone : (mk grants).get g.1 = none := by
        simp only [get, Option.map_eq_none_iff, find?_eq_none]
        intro other hother hsame
        exact hg (mem_map.mpr ⟨other, hother, by simpa using hsame⟩)
      rw [hnone, Option.none_or, if_pos (beq_self_eq_true _)]
      simp [get]
    · have hother : (scope == g.1) = false := by simpa using Ne.symm heq
      have hskip : (g.1 == scope) = false := by simpa using heq
      simp [get, hother, hskip]

theorem isOrdered_ofGrants (grants : List (Scope × Level)) : (ofGrants grants).IsOrdered := by
  have hfold : ∀ p : Permissions, p.IsOrdered →
      (grants.foldl (fun p g => p.set g.1 g.2) p).IsOrdered := by
    induction grants with
    | nil => exact fun p hp => hp
    | cons g grants ih => exact fun p _ => ih _ (isOrdered_ofFun _)
  exact hfold empty isOrdered_empty

theorem IsOrdered.ofGrants_grants (hp : p.IsOrdered) : ofGrants p.grants = p := by
  have hscopes : (p.grants.map (·.1)).Sublist Scope.all := by
    rw [← hp, ofFun, map_filterMap]
    have hkeep : (fun s => ((p.get s).map fun l => (s, l)).map (·.1)) =
        Option.guard fun s => (p.get s).isSome := by
      funext s
      rw [Option.guard]
      cases p.get s <;> rfl
    rw [hkeep, filterMap_eq_filter]
    exact filter_sublist
  refine (isOrdered_ofGrants _).ext hp fun scope => ?_
  rw [ofGrants, get_foldl_set (hscopes.nodup (by decide)), get_empty, Option.or_none]

/-! ## Strength -/

/-- How much a level grants; absence is less than every level. -/
def strength : Option Level → Nat
  | none => 0
  | some level => level.rank + 1

@[simp] theorem strength_higher (a b : Option Level) :
    strength (higher a b) = max (strength a) (strength b) := by
  rcases a with _ | a <;> rcases b with _ | b
  · rfl
  · simp [higher, strength]
  · simp [higher, strength]
  · cases a <;> cases b <;> rfl

@[simp] theorem strength_lower (a b : Option Level) :
    strength (lower a b) = min (strength a) (strength b) := by
  rcases a with _ | a <;> rcases b with _ | b
  · rfl
  · simp [lower, strength]
  · simp [lower, strength]
  · cases a <;> cases b <;> rfl

/-! ## The highest level -/

/-- The level covers what the permissions grant for a scope, and one of them grants it; it
is absent when none of them grants the scope. -/
structure IsHighest (ps : List Permissions) (scope : Scope) (level : Option Level) : Prop where
  covers : ∀ p ∈ ps, strength (p.get scope) ≤ strength level
  attained : level ≠ none → ∃ p ∈ ps, p.get scope = level

theorem higher_eq_or (a b : Option Level) : higher a b = a ∨ higher a b = b := by
  rcases a with _ | a <;> rcases b with _ | b
  · exact .inl rfl
  · exact .inr rfl
  · exact .inl rfl
  · cases a <;> cases b <;> decide

theorem isHighest_foldl (ps : List Permissions) (p : Permissions) (scope : Scope) :
    IsHighest (p :: ps) scope ((ps.foldl join p).get scope) := by
  induction ps generalizing p with
  | nil => exact ⟨by simp, fun _ => ⟨p, by simp⟩⟩
  | cons q ps ih =>
    obtain ⟨hcovers, hattained⟩ := ih (p.join q)
    rw [foldl_cons]
    have hjoin : max (strength (p.get scope)) (strength (q.get scope)) ≤
        strength ((ps.foldl join (p.join q)).get scope) := by
      simpa using hcovers (p.join q) mem_cons_self
    refine ⟨?_, ?_⟩
    · intro other hother
      rcases mem_cons.mp hother with rfl | hother
      · exact Nat.le_trans (Nat.le_max_left ..) hjoin
      · rcases mem_cons.mp hother with rfl | hother
        · exact Nat.le_trans (Nat.le_max_right ..) hjoin
        · exact hcovers other (mem_cons_of_mem _ hother)
    · intro hsome
      obtain ⟨other, hother, heq⟩ := hattained hsome
      rcases mem_cons.mp hother with rfl | hother
      · rw [get_join] at heq
        rcases higher_eq_or (p.get scope) (q.get scope) with h | h
        · exact ⟨p, mem_cons_self, h.symm.trans heq⟩
        · exact ⟨q, by simp, h.symm.trans heq⟩
      · exact ⟨other, by simp [hother], heq⟩

/-- **A join has the highest level for every scope.** -/
theorem isHighest_joinAll (ps : List Permissions) (scope : Scope) :
    IsHighest ps scope ((joinAll ps).get scope) := by
  obtain ⟨hcovers, hattained⟩ := isHighest_foldl ps empty scope
  refine ⟨fun p hp => hcovers p (mem_cons_of_mem _ hp), ?_⟩
  intro hsome
  obtain ⟨p, hp, heq⟩ := hattained hsome
  rcases mem_cons.mp hp with rfl | hp
  · exact absurd (heq.symm.trans (get_empty scope)) hsome
  · exact ⟨p, hp, heq⟩

/-! ## The identity token -/

/-- A step whose action, named before the first `@`, is one that exchanges the identity
token. -/
def UsesIdentityAction (step : Value) : Prop :=
  ∃ entries reference, step.entries? = some entries ∧
    getD entries "uses" = .str reference ∧
    trim (String.ofList (reference.toList.takeWhile (· ≠ '@'))) ∈ identityActions

private theorem splitOnceList_fst (sep : Char) (cs : List Char) :
    ((splitOnceList sep cs).map (·.1)).getD cs = cs.takeWhile (· ≠ sep) := by
  induction cs with
  | nil => rfl
  | cons c cs ih =>
    by_cases hc : c = sep
    · simp [splitOnceList, hc]
    · rw [takeWhile_cons_of_pos (by simpa using hc), ← ih]
      cases hsplit : splitOnceList sep cs <;> simp [splitOnceList, hc, hsplit]

theorem actionName_eq (reference : String) :
    actionName reference = trim (String.ofList (reference.toList.takeWhile (· ≠ '@'))) := by
  rw [← splitOnceList_fst]
  unfold actionName splitOnce
  cases splitOnceList '@' reference.toList <;> simp

theorem needsIdToken_iff (steps : List Value) :
    needsIdToken steps ↔ ∃ step ∈ steps, UsesIdentityAction step := by
  have hstep : ∀ step, stepNeedsIdToken step ↔ UsesIdentityAction step := by
    intro step
    unfold stepNeedsIdToken UsesIdentityAction
    simp only [← actionName_eq]
    cases hentries : step.entries? with
    | none => simp
    | some entries =>
      cases huses : getD entries "uses" <;> simp [huses]
  simp only [needsIdToken, any_eq_true, hstep]

/-- The identity token is set by its rule alone, where nothing else grants it. -/
theorem get_idToken_withIdToken (hp : p.get .idToken = none) (steps : List Value)
    (setting : Option String) :
    (p.withIdToken steps setting).get .idToken =
      if setting ≠ some "none" ∧ (setting = some "write" ∨ needsIdToken steps)
      then some .write else none := by
  unfold withIdToken
  by_cases hnone : setting = some "none"
  · simp [hnone]
  · by_cases hwrite : setting = some "write"
    · simp [hwrite]
    · by_cases hneeds : needsIdToken steps = true <;> simp [hnone, hwrite, hneeds, hp]

theorem get_withIdToken_of_ne (p : Permissions) (steps : List Value) (setting : Option String)
    (h : scope ≠ .idToken) : (p.withIdToken steps setting).get scope = p.get scope := by
  unfold withIdToken
  split
  · simp [h]
  · split
    · simp [h]
    · rfl

/-! ## Written permissions -/

private theorem scopeName_injective {a b : Scope} (h : a.name = b.name) : a = b :=
  inj_on_of_nodup_map (l := Scope.all) (by decide) (mem_all a) (mem_all b) h

theorem get?_entries (p : Permissions) (scope : Scope) :
    get? p.entries scope.name = (p.get scope).map fun level => .str level.name := by
  have hsame : ∀ g : Scope × Level, (str g.1.name).isStr scope.name = (g.1 == scope) := by
    intro g
    by_cases h : g.1 = scope
    · simp [isStr, h]
    · have hname : scope.name ≠ g.1.name := fun heq => h (scopeName_injective heq.symm)
      simp [isStr, h, hname]
  simp [get?, get, entries, find?_map, Function.comp_def, hsame]

theorem addEntry_grant (p : Permissions) (scope : Scope) (level : Level) :
    p.addEntry (.str scope.name, .str level.name) = .ok (p.set scope level) := by
  have hscope : Scope.ofName? scope.name = some scope := by cases scope <;> decide
  have hlevel : Level.ofName? level.name = some level := by cases level <;> decide
  simp [addEntry, setNamed, readScope, readLevel, plain, hscope, hlevel]

/-- **Written permissions are read back.** -/
theorem parse_entries (hp : p.IsOrdered) : parse (.map p.entries) = .ok p := by
  have hfold : ∀ (grants : List (Scope × Level)) (q : Permissions),
      (grants.map fun g => (str g.1.name, str g.2.name)).foldlM addEntry q =
        .ok (grants.foldl (fun p g => p.set g.1 g.2) q) := by
    intro grants
    induction grants with
    | nil => exact fun q => rfl
    | cons g grants ih =>
      intro q
      rw [map_cons, foldlM_cons, addEntry_grant, Outcome.ok_bind, ih, foldl_cons]
  change p.entries.foldlM addEntry empty = _
  rw [entries, hfold, ← ofGrants, hp.ofGrants_grants]

end FlowLock.Permissions
