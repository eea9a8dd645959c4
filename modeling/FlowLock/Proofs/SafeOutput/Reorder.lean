import FlowLock.Proofs.Setting.Reorder
import FlowLock.SafeOutput.Section

/-!
# Safe outputs in another order

The types of the safe-outputs section are looked up in the order of the types, so the order
in which they were declared is not seen; neither is the order of its settings.  Only the
environment of the section keeps its order until it is written.
-/

namespace FlowLock.SafeOutputs

open Outcome Table List Value

def withEnvironment (s : SafeOutputs) (environment : Table String) : SafeOutputs :=
  { s with environment }

/-- Two sections that are the same but for the order of their environments. -/
def Shuffled (s s' : SafeOutputs) : Prop :=
  ∃ environment, s' = s.withEnvironment environment ∧ Table.Shuffled s.environment environment

/-! ## Declared types -/

def SameValues (d d' : Table Value) : Prop := ∀ key, d.get? key = d'.get? key

/-- Whether an entry of the section declares a type. -/
def declares (e : String × Value) : Bool := !sectionKeys.contains e.1

variable {t d : Table Value}

/-- The types of a section whose keys are texts are its entries with other keys than those
of the section, each of which is the key of a type. -/
theorem declaredIn_eq_ok {done : Table Value} :
    declaredIn (t.map fun e => (.str e.1, e.2)) done = .ok d ↔
      (∀ e ∈ t, declares e → ∃ kind, readKind e.1 = .ok kind) ∧
        d = done.update (t.filter declares) := by
  induction t generalizing done with
  | nil =>
    constructor
    · rintro ⟨⟩
      exact ⟨fun _ he => absurd he not_mem_nil, rfl⟩
    · rintro ⟨-, rfl⟩
      rfl
  | cons e t ih =>
    have hplain : (sectionKeys.contains (str e.1).plain && (str e.1).str?.isSome) =
        !declares e := by
      rw [declares, Bool.not_not]
      exact Bool.and_true _
    rw [map_cons, declaredIn, hplain, forall_mem_cons, filter_cons]
    cases declares e with
    | false =>
      rw [if_pos Bool.not_false, if_neg Bool.false_ne_true, ih]
      simp
    | true =>
      rw [if_neg (by simp), if_pos rfl]
      constructor
      · intro h
        obtain ⟨kind, hkind, h⟩ := bind_eq_ok.mp h
        obtain ⟨hrest, rfl⟩ := ih.mp h
        exact ⟨⟨fun _ => ⟨kind, hkind⟩, hrest⟩, rfl⟩
      · rintro ⟨⟨he, hrest⟩, rfl⟩
        obtain ⟨kind, hkind⟩ := he rfl
        exact bind_eq_ok.mpr ⟨kind, hkind, ih.mpr ⟨hrest, rfl⟩⟩

variable {t' : Table Value}

theorem shuffled_declares (h : Table.Reordered SectionEntry t t') :
    Table.Shuffled (t.filter declares) (t'.filter declares) := by
  have hnodup : ∀ {t : Table Value}, (Table.keys t).Nodup →
      (Table.keys (t.filter declares)).Nodup := fun hnodup =>
    hnodup.sublist (filter_sublist.map _)
  refine .of_get? (hnodup h.nodup) (hnodup h.nodup') fun key => ?_
  cases hkey : sectionKeys.contains key with
  | true =>
    have hnone : ∀ t : Table Value, Table.get? (t.filter declares) key = none := by
      intro t
      rw [get?_eq_none_iff]
      rintro hmem
      obtain ⟨e, he, rfl⟩ := mem_map.mp hmem
      have hdeclares := (mem_filter.mp he).2
      rw [declares, hkey] at hdeclares
      cases hdeclares
    rw [hnone, hnone]
  | false =>
    have hkeep : ∀ t : Table Value, Table.get? (t.filter declares) key = t.get? key := fun t =>
      Table.get?_filter fun e _ he => by rw [declares, he, hkey, Bool.not_false]
    have henv : key ≠ "env" := by
      rintro rfl
      exact absurd hkey (by decide)
    have hrel := h.related key
    rw [hkeep, hkeep]
    generalize t.get? key = a, t'.get? key = b at hrel
    cases hrel with
    | none => rfl
    | some hv => rw [(if_neg henv).mp hv]

theorem lifts_declaredIn (h : Table.Reordered SectionEntry t t') :
    Lifts SameValues (declaredIn (t.map fun e => (.str e.1, e.2)) [])
      (declaredIn (t'.map fun e => (.str e.1, e.2)) []) := by
  intro d hd
  obtain ⟨hkinds, rfl⟩ := declaredIn_eq_ok.mp hd
  have hshuffled := shuffled_declares h
  refine ⟨_, declaredIn_eq_ok.mpr ⟨fun e he hdeclares => ?_, rfl⟩, ?_⟩
  · have hmem := hshuffled.symm.mem_of_mem (mem_filter.mpr ⟨he, hdeclares⟩)
    exact hkinds e (mem_of_mem_filter hmem) hdeclares
  · exact ((Shuffled.refl (t := []) nodup_nil).update hshuffled).get?_eq

variable {d' : Table Value}

theorem lifts_declaredWith (imported : Table Value) (h : SameValues d d') :
    Lifts SameValues (declaredWith imported d) (declaredWith imported d') := by
  induction imported generalizing d d' with
  | nil => exact .ok h
  | cons e imported ih =>
    have hhas : d'.has e.1 = d.has e.1 := by
      rw [has_eq_isSome, has_eq_isSome, h]
    rw [declaredWith, declaredWith, hhas]
    split
    · exact ih h
    · refine .bind_same _ fun _ => ih fun key => ?_
      rw [get?_set, get?_set, h]

theorem parseOutputs_congr (h : SameValues d d') (kinds : List SafeOutput.Kind) :
    parseOutputs d kinds = parseOutputs d' kinds := by
  induction kinds with
  | nil => rfl
  | cons kind kinds ih =>
    have hconfigured : configured? d kind = configured? d' kind := by
      rw [configured?, configured?, h]
    rw [parseOutputs, parseOutputs, hconfigured, ih]

/-! ## The section -/

theorem lifts_readEnvironment {v v' : Value} (h : v.Shuffled v') :
    Lifts Table.Shuffled (readEnvironment v) (readEnvironment v') := by
  cases h with
  | same =>
    intro t ht
    refine ⟨t, ht, .refl ?_⟩
    unfold readEnvironment at ht
    split at ht
    · cases ht
      exact nodup_nil
    · cases ht
      exact nodup_keys_ofWritten _
    · cases ht
  | obj h => exact .ok (shuffled_ofWritten h _)

theorem lifts_ofEntries {es es' : Entries} (h : Entries.SectionAlike es es')
    (hdeclared : Lifts SameValues (declaredIn es []) (declaredIn es' []))
    (imported : Table Value) :
    Lifts Shuffled (ofEntries es imported) (ofEntries es' imported) := by
  have hstaged : readStaged es' = readStaged es := by
    rw [readStaged, readStaged, h.get?_eq "staged" (by decide)]
  have hpatch : readPatchSize es' = readPatchSize es := by
    rw [readPatchSize, readPatchSize, h.get?_eq "max-patch-size" (by decide)]
  have hsteps : readSteps es' = readSteps es := by
    rw [readSteps, readSteps, h.getD_eq (by decide : "steps" ≠ "env")]
  have htext : ∀ key default, key ≠ "env" → readText es' key default = readText es key default := by
    intro key default hkey
    rw [readText, readText, h.get?_eq key hkey]
  have hjobs : Entries.has es' "jobs" = Entries.has es "jobs" := by
    rw [Entries.has_eq_isSome, Entries.has_eq_isSome, h.get?_eq "jobs" (by decide)]
  unfold ofEntries
  refine hdeclared.bind fun _ _ hdeclared => ?_
  refine (lifts_declaredWith imported hdeclared).bind fun d d' hdeclared => ?_
  rw [parseOutputs_congr hdeclared, hstaged, hpatch, hsteps, htext _ _ (by decide),
    htext _ _ (by decide), hjobs, ← h.getD_eq (by decide : "app" ≠ "env"),
    ← h.getD_eq (by decide : "footer" ≠ "env"), ← h.getD_eq (by decide : "id-token" ≠ "env"),
    ← h.getD_eq (by decide : "messages" ≠ "env"),
    ← h.getD_eq (by decide : "allowed-domains" ≠ "env")]
  refine .bind_same _ fun ⟨outputs, ordered⟩ => ?_
  refine .bind_same _ fun staged => .bind_same _ fun size => .bind_same _ fun steps => ?_
  refine .bind_same _ fun token => .bind_same _ fun runsOn => ?_
  split
  · exact .error
  · refine .bind_same _ fun app => ?_
    refine (lifts_readEnvironment h.environment).bind fun environment _ henvironment => ?_
    refine .bind_same _ fun footer => .bind_same _ fun idToken => .bind_same _ fun messages => ?_
    exact .bind_same _ fun domains => .ok ⟨_, rfl, henvironment⟩

/-- **A section in another order** is the same section but for its environment. -/
theorem lifts_parse {v v' : Value} (h : v.SectionShuffled v') (imported : Table Value) :
    Lifts (Option.Rel Shuffled) (parse v imported) (parse v' imported) := by
  have hsection : ∀ es, Lifts Shuffled (ofEntries es imported) (ofEntries es imported) := fun es =>
    lifts_ofEntries (.refl es) (fun d hd => ⟨d, hd, fun _ => rfl⟩) imported
  cases h with
  | same =>
    unfold parse
    split
    · split
      · exact .ok .none
      · exact (hsection []).bind fun _ _ h => .ok (.some h)
    · exact (hsection _).bind fun _ _ h => .ok (.some h)
    · exact .error
  | obj h =>
    exact (lifts_ofEntries (Entries.sectionAlike (.obj h)) (lifts_declaredIn h) imported).bind
      fun _ _ h => .ok (.some h)

end FlowLock.SafeOutputs
