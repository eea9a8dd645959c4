import FlowLock.Proofs.Value
import FlowLock.Proofs.Value.Entries
import FlowLock.Proofs.Workflow.OutputToken
import Mathlib.Data.List.Flatten

/-!
# Outputs for callers

A workflow that others can call shows them what its safe outputs made.  Three places have to agree
on the names: the event of the call, the outputs of the processing job, and the step of that job
which carries out the safe outputs.  They are written by three functions from one section; here
they are followed from the first to the last.

Values are trees.  A mapping that a document writes once and refers to at a second event stands at
both events as two mappings, of which only that of the call gets outputs.
-/

namespace FlowLock

open Outcome SafeOutput List Table Step Value

namespace Trigger

def callEvent : String := "workflow_call"

def callSettings (triggers : Entries) : Entries :=
  ((Entries.get? triggers callEvent).bind entries?).getD []

def declaredOutputs (triggers : Entries) : Entries :=
  (Entries.getD (callSettings triggers) "outputs").entries?.getD []

end Trigger

open Trigger

namespace SafeOutputs

/-! ## The outputs of a section -/

def exposedBy (s : Option SafeOutputs) : List (String × String) := (s.map exposed).getD []

/-- An output of the processing job as a caller sees it. -/
def callOutput (e : String × String) : Value :=
  texts [("description", e.2), ("value", expression s!"jobs.{jobName}.outputs.{e.1}")]

/-- The outputs of a section with those that a workflow declares: at a name of the section what
the workflow declares there, if anything, and then what else it declares. -/
def mergedOutputs (exposes : List (String × String)) (declared : Entries) : Entries :=
  (exposes.map fun e => (.str e.1, (Entries.get? declared e.1).getD (callOutput e))) ++
    declared.filter fun e => exposes.all fun given => !e.1.isStr given.1

theorem nodup_keys_exposed (s : SafeOutputs) : (Table.keys s.exposed).Nodup := by
  have hall : ((Kind.all.flatMap fun kind => kind.spec.exposes).map (·.1)).Nodup := by decide
  have hkinds : (s.handled.map (·.kind)).Sublist Kind.all := (filter_sublist.map _).trans s.ordered
  have hexposed : s.exposed = (s.handled.map (·.kind)).flatMap fun kind => kind.spec.exposes := by
    rw [exposed, flatMap_map]
  rw [hexposed]
  exact ((hkinds.flatMap _).map _).nodup hall

theorem nodup_keys_exposedBy (s : Option SafeOutputs) : (Table.keys (exposedBy s)).Nodup := by
  cases s with
  | none => exact nodup_nil
  | some s => exact nodup_keys_exposed s

theorem callOutputs_eq (s : Option SafeOutputs) :
    callOutputs s = (exposedBy s).map fun e => (e.1, callOutput e) := by
  cases s with
  | none => rfl
  | some s =>
    refine update_of_nodup ?_
    rw [nil_append, Table.keys, map_map]
    exact nodup_keys_exposed s

theorem jobOutputs_eq (s : SafeOutputs) : s.jobOutputs = s.exposed.map fun e =>
      (e.1, .str (expression s!"steps.{stepId}.outputs.{e.1}")) := by
  refine update_of_nodup ?_
  rw [nil_append, Table.keys, map_map]
  exact nodup_keys_exposed s

def Exposes (s : Option SafeOutputs) : Prop :=
  ∃ found, s = some found ∧ ∃ o ∈ found.outputs, o.kind.isReport = false ∧ o.kind.spec.exposes ≠ []

theorem exposedBy_ne_nil_iff {s : Option SafeOutputs} : exposedBy s ≠ [] ↔ Exposes s := by
  cases s with
  | none => simp [exposedBy, Exposes]
  | some s => simp [exposedBy, Exposes, exposed, handled]

/-! ## Merging -/

section Merging

variable {exposes : List (String × String)} {declared : Entries}

theorem mergeOutputs_eq (hkeys : (Table.keys exposes).Nodup) {outputs : Value}
    (hdistinct : (outputs.entries?.getD []).Distinct)
    (hmaps : ∀ e ∈ outputs.entries?.getD [], e.2.entries?.isSome) :
    mergeOutputs (exposes.map fun e => (.str e.1, callOutput e)) outputs =
      mergedOutputs exposes (outputs.entries?.getD []) := by
  have hupdate : ∀ {more : Entries}, more.Distinct →
      Entries.update (exposes.map fun e => (.str e.1, callOutput e)) more =
        mergedOutputs exposes more := by
    intro more hmore
    have hnodup : (Table.keys (exposes.map fun e => (e.1, callOutput e))).Nodup := by
      rwa [Table.keys, map_map]
    simpa [mergedOutputs, Function.comp_def] using Entries.update_texts hnodup hmore
  unfold mergeOutputs
  cases houtputs : outputs.entries? with
  | none => exact hupdate Pairwise.nil
  | some es =>
    rw [houtputs] at hdistinct hmaps
    dsimp only [Option.getD_some] at hdistinct hmaps ⊢
    rw [filter_eq_self.mpr hmaps, hupdate hdistinct]

theorem distinct_mergedOutputs (hkeys : (Table.keys exposes).Nodup) (hdeclared : declared.Distinct) :
    (mergedOutputs exposes declared).Distinct := by
  refine pairwise_append.mpr ⟨?_, hdeclared.filter _, ?_⟩
  · refine pairwise_map.mpr ((pairwise_map.mp hkeys).imp fun {e f} hne => ?_)
    simpa [str_same, isStr] using hne
  · intro e he f hf
    obtain ⟨given, hgiven, rfl⟩ := mem_map.mp he
    have hother := all_eq_true.mp (mem_filter.mp hf).2 given hgiven
    simpa [str_same] using hother

theorem entries?_of_mem_mergedOutputs
    (hmaps : ∀ e ∈ declared, e.2.entries?.isSome) {e : Value × Value}
    (he : e ∈ mergedOutputs exposes declared) : e.2.entries?.isSome := by
  rcases mem_append.mp he with he | he
  · obtain ⟨given, -, rfl⟩ := mem_map.mp he
    cases hget : Entries.get? declared given.1 with
    | none => rfl
    | some v =>
      obtain ⟨d, hd, rfl⟩ := Option.map_eq_some_iff.mp hget
      exact hmaps d (mem_of_find?_eq_some hd)
  · exact hmaps e (mem_of_mem_filter he)

theorem get?_mergedOutputs (hkeys : (Table.keys exposes).Nodup) {e : String × String}
    (he : e ∈ exposes) :
    Entries.get? (mergedOutputs exposes declared) e.1 =
      some ((Entries.get? declared e.1).getD (callOutput e)) := by
  let t : Table Value := exposes.map fun e => (e.1, (Entries.get? declared e.1).getD (callOutput e))
  have hnodup : (Table.keys t).Nodup := by rwa [Table.keys, map_map]
  have hget : t.get? e.1 = some ((Entries.get? declared e.1).getD (callOutput e)) :=
    get?_of_mem hnodup (mem_map_of_mem he)
  have hfirst : mergedOutputs exposes declared = (t.map fun e => (.str e.1, e.2)) ++
      declared.filter fun e => exposes.all fun given => !e.1.isStr given.1 := by
    rw [map_map]
    rfl
  rw [hfirst, Entries.get?_append, Entries.get?_map_str, hget]
  rfl

theorem mergedOutputs_mergedOutputs (hkeys : (Table.keys exposes).Nodup) :
    mergedOutputs exposes (mergedOutputs exposes declared) = mergedOutputs exposes declared := by
  conv_lhs => rw [mergedOutputs]
  conv_rhs => rw [mergedOutputs]
  refine congrArg₂ (· ++ ·) ?_ ?_
  · exact map_congr_left fun e he => by rw [get?_mergedOutputs hkeys he]; rfl
  · have hnone : (exposes.map fun e =>
        (str e.1, (Entries.get? declared e.1).getD (callOutput e))).filter
          (fun e => exposes.all fun given => !e.1.isStr given.1) = [] := by
      refine filter_eq_nil_iff.mpr fun e he hall => ?_
      obtain ⟨given, hgiven, rfl⟩ := mem_map.mp he
      have hself := all_eq_true.mp hall given hgiven
      simp [isStr] at hself
    rw [mergedOutputs, filter_append, hnone, nil_append, filter_filter]
    simp only [Bool.and_self]

end Merging

/-! ## Injecting -/

section Injecting

variable {triggers : Entries} {s : Option SafeOutputs}

theorem injectOutputs_of_not
    (h : ¬((Entries.get? triggers callEvent).isSome ∧ Exposes s)) :
    injectOutputs triggers s = triggers := by
  unfold injectOutputs
  cases hcall : Entries.get? triggers "workflow_call" with
  | none => rfl
  | some call =>
    have hexposed : exposedBy s = [] := by
      by_contra hne
      exact h ⟨by rw [callEvent, hcall]; rfl, exposedBy_ne_nil_iff.mp hne⟩
    simp [callOutputs_eq, hexposed]

theorem injectOutputs_of_call (hcall : (Entries.get? triggers callEvent).isSome)
    (hexposes : Exposes s) (hdistinct : (declaredOutputs triggers).Distinct)
    (hmaps : ∀ e ∈ declaredOutputs triggers, e.2.entries?.isSome) :
    injectOutputs triggers s = Entries.set triggers callEvent
      (.map (Entries.set (callSettings triggers) "outputs"
        (.map (mergedOutputs (exposedBy s) (declaredOutputs triggers))))) := by
  obtain ⟨call, hcall⟩ := Option.isSome_iff_exists.mp hcall
  have hsettings : callSettings triggers = call.entries?.getD [] := by
    rw [callSettings, hcall]
    rfl
  have hsome : ((exposedBy s).map fun e => (e.1, callOutput e)).isEmpty = false := by
    simpa using exposedBy_ne_nil_iff.mpr hexposes
  have hmerge := mergeOutputs_eq (nodup_keys_exposedBy s) hdistinct hmaps
  unfold injectOutputs
  rw [show Entries.get? triggers "workflow_call" = some call from hcall]
  dsimp only
  rw [callOutputs_eq, hsome, if_neg Bool.false_ne_true, map_map, ← hsettings]
  exact congrArg (fun outputs => Entries.set triggers callEvent
    (.map (Entries.set (callSettings triggers) "outputs" (.map outputs)))) hmerge

theorem injectOutputs_injectOutputs (hdistinct : (declaredOutputs triggers).Distinct)
    (hmaps : ∀ e ∈ declaredOutputs triggers, e.2.entries?.isSome) :
    injectOutputs (injectOutputs triggers s) s = injectOutputs triggers s := by
  by_cases h : (Entries.get? triggers callEvent).isSome ∧ Exposes s
  · obtain ⟨hcall, hexposes⟩ := h
    have hkeys := nodup_keys_exposedBy s
    set settings := Entries.set (callSettings triggers) "outputs"
      (.map (mergedOutputs (exposedBy s) (declaredOutputs triggers))) with hsettings
    have hinject : injectOutputs triggers s = Entries.set triggers callEvent (.map settings) :=
      injectOutputs_of_call hcall hexposes hdistinct hmaps
    have hget := Entries.get?_set_self triggers callEvent (.map settings)
    have houtputs : Entries.get? settings "outputs" =
        some (.map (mergedOutputs (exposedBy s) (declaredOutputs triggers))) :=
      Entries.get?_set_self _ _ _
    rw [hinject]
    -- The outputs that are declared now are the merged ones.
    have hnow : callSettings (Entries.set triggers callEvent (.map settings)) = settings := by
      rw [callSettings, hget]
      rfl
    have hdeclared : declaredOutputs (Entries.set triggers callEvent (.map settings)) =
        mergedOutputs (exposedBy s) (declaredOutputs triggers) := by
      rw [declaredOutputs, hnow, Entries.getD, houtputs]
      rfl
    rw [injectOutputs_of_call (by rw [hget]; rfl) hexposes
      (hdeclared ▸ distinct_mergedOutputs hkeys hdistinct)
      (hdeclared ▸ fun e he => entries?_of_mem_mergedOutputs hmaps he), hdeclared,
      mergedOutputs_mergedOutputs hkeys, hnow, Entries.set_of_get? houtputs,
      Entries.set_of_get? hget]
  · rw [injectOutputs_of_not h, injectOutputs_of_not h]

end Injecting

/-! ## The processing job -/

theorem exists_processing_step {s : SafeOutputs} {ctx : Context} {name id tracker : String}
    {steps : List Value} (h : s.jobSteps ctx name id tracker = .ok steps) :
    ∃ before step, steps = before ++ [step] ∧ step.at? [.key "id"] = some (.str stepId) := by
  simp only [jobSteps, bind_eq_ok] at h
  obtain ⟨setup, -, app, -, output, -, patch, -, environment, -, process, hprocess, h⟩ := h
  cases h
  have hid : stepId.isEmpty = false := by decide
  exact ⟨_, process, rfl, id_script hprocess hid⟩

end SafeOutputs

open SafeOutputs

namespace Trigger

theorem eq_null_of_parse_list {items : List Value} {on : Entries}
    (h : parse (.list items) = .ok on) : ∀ e ∈ on, e.2 = .null := by
  have hfold : ∀ (items : List Value) (events : Entries), (∀ e ∈ events, e.2 = .null) →
      Gives (fun on => ∀ e ∈ on, e.2 = .null) (items.foldlM addName events) := by
    intro items
    induction items with
    | nil => exact fun events hevents => .ok hevents
    | cons item items ih =>
      intro events hevents
      have hadd : Gives (fun on : Entries => ∀ e ∈ on, e.2 = .null) (addName events item) := by
        unfold addName
        split
        · exact .ok fun e he => (Entries.mem_set he).elim (hevents e) id
        · rintro on ⟨⟩
      rw [foldlM_cons]
      exact hadd.bind ih
  exact hfold items [] (by simp) on h

end Trigger

namespace Workflow

variable {w : Workflow} {engine : Engine} {ctx : Context} {v : Value} {warnings : List Warning}

/-- Events with settings are written as they are, whatever was declared: names alone declare no
settings. -/
theorem writtenOn_of_settings (hparse : Trigger.parse w.onDeclared = .ok w.on) {on : Entries}
    {e : Value × Value} (he : e ∈ on) {settings : Entries} (hsettings : e.2 = .map settings) :
    w.writtenOn on = .map on := by
  have hchanged : (∀ d ∈ w.on, d.2 = .null) → (map on).same (.map w.on) = false := by
    intro hnull
    rw [Bool.eq_false_iff]
    intro hsame
    obtain ⟨-, heach⟩ := Bool.and_eq_true_iff.mp hsame
    obtain ⟨d, hd, -, hvalue⟩ := eachEntryIn_iff.mp heach e he
    rw [hsettings, hnull d hd] at hvalue
    cases hvalue
  unfold writtenOn
  dsimp only
  split
  · next name hdeclared =>
    have hon : [(str name, .null)] = w.on := by
      rw [hdeclared] at hparse
      exact Except.ok.inj hparse
    rw [hchanged (by simp [← hon]), if_neg Bool.false_ne_true]
  · next items hdeclared =>
    rw [hdeclared] at hparse
    rw [hchanged (eq_null_of_parse_list hparse), if_neg Bool.false_ne_true]
  · rfl

/-- An output of the processing job leads somewhere: the job exposes it as an output of a step,
and it has that step. -/
structure Resolves (v : Value) (key : String) : Prop where
  exposed : v.at? [.key "jobs", .key jobName, .key "outputs", .key key] =
    some (.str (expression s!"steps.{stepId}.outputs.{key}"))
  step : ∃ index, v.at? [.key "jobs", .key jobName, .key "steps", .item index, .key "id"] =
    some (.str stepId)

theorem resolves_of_compiled (h : w.compiled engine ctx = .ok (v, warnings)) {e : String × String}
    (he : e ∈ exposedBy w.safeOutputs) : Resolves v e.1 := by
  obtain ⟨graph, hjobs, rfl⟩ := compiled_eq_ok.mp h
  cases hs : w.safeOutputs with
  | none => simp [hs, exposedBy] at he
  | some s =>
    replace he : e ∈ s.exposed := by simpa [hs, exposedBy] using he
    have hhandled : s.handled ≠ [] := by
      obtain ⟨o, ho, -⟩ := mem_flatMap.mp he
      exact ne_nil_of_mem ho
    obtain ⟨activation, agent, outputs, push, needs, conclusion, -, -, houtputs, -, -, hgraph⟩ :=
      jobs_eq_ok hjobs
    obtain ⟨found, reports, hfound, -, rfl⟩ := outputJobs_eq_ok hs houtputs
    obtain ⟨steps, hsteps⟩ : ∃ steps, s.jobSteps ctx w.name w.id w.tracker = .ok steps := by
      rw [job?, isEmpty_eq_false_iff.mpr hhandled, if_neg Bool.false_ne_true] at hfound
      obtain ⟨steps, hsteps, -⟩ := bind_eq_ok.mp hfound
      exact ⟨steps, hsteps⟩
    obtain rfl := Except.ok.inj (hfound.symm.trans (job?_of_handled hhandled hsteps))
    have hplace := at?_written hjobs (show s.processingJob steps ∈ graph.jobs by simp [hgraph])
    obtain ⟨before, step, rfl, hid⟩ := exists_processing_step hsteps
    constructor
    · have hnodup : (keys s.jobOutputs).Nodup := nodup_keys_ofWritten _
      have hmem : (e.1, str (expression s!"steps.{stepId}.outputs.{e.1}")) ∈
          s.jobOutputs := by
        rw [jobOutputs_eq]
        exact mem_map_of_mem he
      exact (hplace _).trans ((Job.at?_outputs _ e.1).trans (get?_of_mem hnodup hmem))
    · refine ⟨before.length, (hplace _).trans ?_⟩
      exact (at?_obj_of_not_mem (Job.steps_not_mem_settings _) _ _ _).trans
        ((at?_list_last before _ _).trans hid)

theorem at?_on_of_compiled (h : w.compiled engine ctx = .ok (v, warnings))
    (place : List Turn) :
    v.at? (.key "on" :: place) = (w.writtenOn (injectOutputs w.on w.safeOutputs)).at? place := by
  obtain ⟨graph, -, rfl⟩ := compiled_eq_ok.mp h
  simp [written, head, at?_obj, get?_cons]

/-- The events of a workflow that can be called, with an output of its own, one under a name of
its section, and another setting. -/
def calledEvents : Entries :=
  [(.str "push", .null),
   (.str "workflow_call", .obj
     [("inputs", .obj [("n", .null)]),
      ("outputs", .obj [("mine", .obj []), ("created_issue_url", .obj [("value", .str "u")])])])]

def calledSample : Workflow :=
  { sampleWorkflow with on := calledEvents, onDeclared := .map calledEvents }

end Workflow

end FlowLock
