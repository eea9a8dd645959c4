import FlowLock.Engine.Settings
import FlowLock.Proofs.Outcome
import FlowLock.Proofs.Permission
import FlowLock.Proofs.Table.Reorder

/-!
# Settings in another order

The entries of a mapping of front matter may come in another order.  The readers of
environments and of permissions go through the entries one after the other; with text keys
that are not repeated they read the same environment, up to its order, and the same
permissions.
-/

namespace FlowLock

open Outcome List Table Entries Setting Value

namespace Value

/-- Two values that are the same, or mappings with the same text keys, in any order, and
related values at each of them. -/
inductive Reordered (R : String → Value → Value → Prop) : Value → Value → Prop
  | same (v : Value) : Reordered R v v
  | obj {t t' : Table Value} (h : Table.Reordered R t t') : Reordered R (.obj t) (.obj t')

/-- Two values that are the same, or mappings with the same entries in any order. -/
def Shuffled (v v' : Value) : Prop := Reordered (fun _ => Eq) v v'

theorem Reordered.symm {R S : String → Value → Value → Prop}
    (hRS : ∀ key v v', R key v v' → S key v' v) {v v' : Value} (h : Reordered R v v') :
    Reordered S v' v := by
  cases h with
  | same => exact .same _
  | obj h => exact .obj (h.symm hRS)

theorem Shuffled.symm {v v' : Value} (h : Shuffled v v') : Shuffled v' v :=
  Reordered.symm (fun _ _ _ heq => heq.symm) h

end Value

theorem Entries.get?_map_str (t : Table Value) (key : String) :
    get? (t.map fun e => (.str e.1, e.2)) key = t.get? key := by
  have hkey : ∀ e : String × Value, (str e.1).isStr key = (e.1 == key) := fun e =>
    BEq.comm
  simp [get?, Table.get?, find?_map, Function.comp_def, hkey]

theorem Entries.has_eq_isSome (es : Entries) (key : String) :
    has es key = (get? es key).isSome := by
  rw [has, get?, Option.isSome_map, isSome_find?]

theorem Entries.related_get? {R : String → Value → Value → Prop} (hR : ∀ key v, R key v v)
    {es es' : Entries} (h : Reordered R (.map es) (.map es')) (key : String) :
    Option.Rel (R key) (get? es key) (get? es' key) := by
  generalize hv : map es = v, hv' : map es' = v' at h
  cases h with
  | same v =>
    cases hv
    cases hv'
    cases get? es key with
    | none => exact .none
    | some v => exact .some (hR key v)
  | @obj t t' h =>
    cases hv
    cases hv'
    change Option.Rel _ (get? (t.map fun e => (.str e.1, e.2)) key)
      (get? (t'.map fun e => (.str e.1, e.2)) key)
    rw [get?_map_str, get?_map_str]
    exact h.related key

/-! ## Environments -/

theorem Table.shuffled_ofWritten {t t' : Table Value} (h : Shuffled t t')
    (text : Value → String) :
    Shuffled
      (.ofWritten ((t.map fun e => (str e.1, e.2)).map fun e => (e.1.plain, text e.2)))
      (.ofWritten ((t'.map fun e => (str e.1, e.2)).map fun e => (e.1.plain, text e.2))) := by
  rw [map_map, map_map]
  exact (Shuffled.refl (t := []) nodup_nil).update (h.map text)

theorem Table.nodup_keys_ofWritten {α : Type} (es : List (String × α)) :
    (keys (.ofWritten es)).Nodup :=
  nodup_keys_update (t := []) nodup_nil es

theorem Setting.lifts_environment {v v' : Value} (h : v.Shuffled v') (name : String) :
    Lifts Table.Shuffled (environment v name) (environment v' name) := by
  cases h with
  | same =>
    intro t ht
    refine ⟨t, ht, .refl ?_⟩
    unfold environment at ht
    split at ht
    · cases ht
      exact nodup_nil
    · obtain ⟨es, -, ht⟩ := bind_eq_ok.mp ht
      cases ht
      exact nodup_keys_ofWritten _
  | obj h => exact .ok (shuffled_ofWritten h _)

/-! ## Permissions -/

namespace Permissions

theorem set_comm (p : Permissions) {a b : Scope} (hne : a ≠ b) (l m : Level) :
    (p.set a l).set b m = (p.set b m).set a l := by
  have hordered : ∀ (p : Permissions) (s : Scope) (l : Level), (p.set s l).IsOrdered :=
    fun _ _ _ => isOrdered_ofFun _
  refine (hordered _ b m).ext (hordered _ a l) fun scope => ?_
  rw [get_set, get_set, get_set, get_set]
  by_cases ha : scope = a <;> by_cases hb : scope = b <;> simp_all

variable {p q : Permissions}

theorem addEntry_eq_ok {key : String} {v : Value} :
    p.addEntry (.str key, v) = .ok q ↔
      ∃ scope level, key = Scope.name scope ∧ v = .str (Level.name level) ∧
        q = p.set scope level := by
  constructor
  · intro h
    unfold addEntry at h
    split at h
    · next word hword =>
      obtain ⟨level, hlevel, h⟩ := bind_eq_ok.mp h
      obtain ⟨scope, hscope, h⟩ := bind_eq_ok.mp h
      cases h
      refine ⟨scope, level, ?_, ?_, rfl⟩
      · unfold readScope at hscope
        split at hscope
        · next found hfound =>
          cases hscope
          have hname : scope.name = (str key).plain := by simpa using find?_some hfound
          exact hname.symm
        · cases hscope
      · unfold readLevel at hlevel
        split at hlevel
        · next found hfound =>
          cases hlevel
          have hname : level.name = word := by simpa using find?_some hfound
          rw [hname]
          exact hword
        · cases hlevel
    · cases h
  · rintro ⟨scope, level, rfl, rfl, rfl⟩
    exact addEntry_grant p scope level

theorem foldlM_addEntry_of_perm {t t' : Table Value} (hperm : t.Perm t') (hnodup : (keys t).Nodup)
    (h : (t.map fun e => (str e.1, e.2)).foldlM addEntry p = .ok q) :
    (t'.map fun e => (str e.1, e.2)).foldlM addEntry p = .ok q := by
  induction hperm generalizing p with
  | nil => exact h
  | cons e _ ih =>
    rw [map_cons, foldlM_cons] at h ⊢
    obtain ⟨next, hnext, h⟩ := bind_eq_ok.mp h
    exact bind_eq_ok.mpr ⟨next, hnext, ih (nodup_cons.mp hnodup).2 h⟩
  | swap e d t =>
    simp only [map_cons, foldlM_cons] at h ⊢
    obtain ⟨one, hone, h⟩ := bind_eq_ok.mp h
    obtain ⟨two, htwo, h⟩ := bind_eq_ok.mp h
    obtain ⟨scope, level, hkey, hvalue, rfl⟩ := addEntry_eq_ok.mp hone
    obtain ⟨scope', level', hkey', hvalue', rfl⟩ := addEntry_eq_ok.mp htwo
    have hne : scope ≠ scope' := by
      rintro rfl
      have hnot := (nodup_cons.mp hnodup).1
      exact hnot (mem_cons.mpr (.inl (hkey.trans hkey'.symm)))
    refine bind_eq_ok.mpr ⟨_, addEntry_eq_ok.mpr ⟨scope', level', hkey', hvalue', rfl⟩, ?_⟩
    refine bind_eq_ok.mpr ⟨_, addEntry_eq_ok.mpr ⟨scope, level, hkey, hvalue, rfl⟩, ?_⟩
    rwa [set_comm p hne.symm]
  | trans hperm _ ih ih' =>
    exact ih' ((hperm.map _).nodup_iff.mp hnodup) (ih hnodup h)

theorem parse_of_shuffled {v v' : Value} (h : v.Shuffled v') (hparse : parse v = .ok p) :
    parse v' = .ok p := by
  cases h with
  | same => exact hparse
  | obj h => exact foldlM_addEntry_of_perm (Shuffled.perm h) h.nodup hparse

end Permissions

/-! ## Sections with an environment -/

/-- How the entries of two sections with an environment are related: the environments may
come in another order. -/
def Value.SectionEntry (key : String) (v v' : Value) : Prop :=
  if key = "env" then v.Shuffled v' else v = v'

/-- Two sections that are the same but for the order of their keys and of their
environments. -/
def Value.SectionShuffled (v v' : Value) : Prop := Reordered SectionEntry v v'

namespace Value

theorem sectionEntry_refl (key : String) (v : Value) : SectionEntry key v v := by
  unfold SectionEntry
  split
  · exact .same v
  · rfl

theorem sectionEntry_symm (key : String) (v v' : Value) (h : SectionEntry key v v') :
    SectionEntry key v' v := by
  unfold SectionEntry at h ⊢
  split at h
  · next hkey =>
    rw [if_pos hkey]
    exact h.symm
  · next hkey =>
    rw [if_neg hkey]
    exact h.symm

theorem SectionShuffled.symm {v v' : Value} (h : v.SectionShuffled v') : v'.SectionShuffled v :=
  Reordered.symm sectionEntry_symm h

end Value

/-- What two mappings of entries have in common when they are the same section but for the
order of environments. -/
structure Entries.SectionAlike (es es' : Entries) : Prop where
  get?_eq : ∀ key, key ≠ "env" → get? es key = get? es' key
  environment : (getD es "env").Shuffled (getD es' "env")

namespace Entries

variable {es es' : Entries}

theorem SectionAlike.refl (es : Entries) : SectionAlike es es := ⟨fun _ _ => rfl, .same _⟩

theorem SectionAlike.getD_eq (h : SectionAlike es es') {key : String} (hkey : key ≠ "env") :
    getD es key = getD es' key := by
  rw [getD, getD, h.get?_eq key hkey]

theorem sectionAlike (h : (map es).SectionShuffled (.map es')) : SectionAlike es es' where
  get?_eq key hkey := by
    have hrel := related_get? sectionEntry_refl h key
    generalize get? es key = a, get? es' key = b at hrel
    cases hrel with
    | none => rfl
    | some hv => rw [(if_neg hkey).mp hv]
  environment := by
    have hrel := related_get? sectionEntry_refl h "env"
    unfold getD
    generalize get? es "env" = a, get? es' "env" = b at hrel
    cases hrel with
    | none => exact .same _
    | some hv => exact hv

end Entries

namespace EngineSettings

def withEnvironment (e : EngineSettings) (environment : Table String) : EngineSettings :=
  { e with environment }

/-- Two engines that are the same but for the order of their environments. -/
def Shuffled (e e' : EngineSettings) : Prop :=
  ∃ environment, e' = e.withEnvironment environment ∧ Table.Shuffled e.environment environment

theorem lifts_ofEntries {es es' : Entries} (h : SectionAlike es es') (sandbox : Sandbox) :
    Lifts Shuffled (ofEntries es sandbox) (ofEntries es' sandbox) := by
  unfold ofEntries
  rw [← h.getD_eq (by decide : "id" ≠ "env"), ← h.getD_eq (by decide : "max-turns" ≠ "env"),
    ← h.getD_eq (by decide : "steps" ≠ "env"), ← h.getD_eq (by decide : "version" ≠ "env"),
    ← h.getD_eq (by decide : "model" ≠ "env"), ← h.getD_eq (by decide : "command" ≠ "env"),
    ← h.getD_eq (by decide : "args" ≠ "env"), ← h.getD_eq (by decide : "agent" ≠ "env")]
  split
  · split
    · exact .error
    · refine .bind_same _ fun maxTurns => .bind_same _ fun steps => ?_
      refine .bind_same _ fun version => .bind_same _ fun model => ?_
      refine (lifts_environment h.environment _).bind fun environment _ henvironment => ?_
      refine .bind_same _ fun command => .bind_same _ fun args => .bind_same _ fun agent => ?_
      exact .ok ⟨_, rfl, henvironment⟩
  · exact .error

/-- **An engine whose environment comes in another order** is the same engine otherwise. -/
theorem lifts_parse {v v' : Value} (h : v.SectionShuffled v') (sandbox : Value) :
    Lifts Shuffled (parse v sandbox) (parse v' sandbox) := by
  refine .bind_same _ fun sandbox => ?_
  cases h with
  | same =>
    split
    · exact .ok ⟨_, rfl, .refl nodup_nil⟩
    · exact .ok ⟨_, rfl, .refl nodup_nil⟩
    · exact .bind_same _ fun es => lifts_ofEntries (.refl es) sandbox
  | obj h => exact lifts_ofEntries (sectionAlike (.obj h)) sandbox

end EngineSettings

end FlowLock
