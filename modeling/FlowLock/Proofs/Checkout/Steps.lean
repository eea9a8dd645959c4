import FlowLock.Proofs.Checkout.Merge
import FlowLock.Proofs.Value.Place

/-!
# The steps of a plan

A plan becomes one step for the root of the workspace and one for every other target.  A step
is told what its target says and nothing else, so the settings that requests agree on can be
read off the steps.
-/

namespace FlowLock.Checkout

open Outcome Table List

namespace Target

/-- A text as a setting of a step, which is left out when it is empty. -/
def given (text : String) : Option Value := if text.isEmpty then none else some (.str text)

/-- What the checkout of a target is told, key by key. -/
def settings (t : Target) : Table (Option Value) :=
  [("persist-credentials", some (.bool false)),
   ("repository", given t.repository),
   ("path", given t.path),
   ("ref", given t.ref),
   ("token", given t.token),
   ("fetch-depth", t.fetchDepth.map .int),
   ("sparse-checkout",
     if t.patterns.isEmpty then none else some (.str (Text.unlines t.patterns ++ "\n"))),
   ("submodules", given t.submodules),
   ("lfs", if t.lfs then some (.bool true) else none)]

/-- A step checks out a target: it uses an action, and it is told the settings of the target and
nothing else. -/
structure CheckedOutBy (reference : String) (t : Target) (step : Value) : Prop where
  uses : step.at? [.key "uses"] = some (.str reference)
  told : ∀ key, step.at? [.key "with", .key key] = (t.settings.get? key).join

theorem textInput_eq (key text : String) :
    textInput key text = ((given text).map fun v => (key, v)).toList := by
  unfold textInput given
  split <;> rfl

theorem filterMap_settings (t : Target) :
    (t.settings.filterMap fun e => e.2.map fun v => (e.1, v)) =
      ("persist-credentials", .bool false) :: Plan.additionalInputs t := by
  have hcons : ∀ (e : String × Option Value) (rest : Table (Option Value)),
      ((e :: rest).filterMap fun e => e.2.map fun v => (e.1, v)) =
        (e.2.map fun v => (e.1, v)).toList ++ rest.filterMap fun e => e.2.map fun v => (e.1, v) := by
    rintro ⟨key, _ | v⟩ rest <;> rfl
  simp only [settings, hcons, Plan.additionalInputs, howInputs, textInput_eq, filterMap_nil,
    append_assoc, append_nil]
  cases t.fetchDepth <;> split <;> split <;> simp

theorem nodup_keys_settings (t : Target) : (keys t.settings).Nodup := by
  simp [settings, Table.keys]

end Target

namespace Plan

variable {plan : Plan} {pin : PinResolver} {reference : String}

/-- The target at the root of the workspace, which has no settings when no request asks for
it. -/
def root (plan : Plan) : Target :=
  (plan.targets.find? (·.isDefault)).getD { repository := "", path := "" }

theorem checkedOutBy_step (reference name : String) (t : Target) :
    t.CheckedOutBy reference (step reference name (additionalInputs t)) where
  uses := by simp [step, Value.at?_obj_key, get?_cons]
  told key := by
    rw [← get?_filterMap t.nodup_keys_settings, t.filterMap_settings, ← Value.at?_obj_key]
    simp [step, Value.at?_obj, get?_cons]

/-- The root of the workspace is checked out as its target says; that target names neither
repository nor path. -/
theorem defaultInputs_none (h : plan.Indexed) :
    plan.defaultInputs none = additionalInputs plan.root := by
  rw [defaultInputs, h.defaultTarget?_eq, root]
  cases hfound : plan.targets.find? (·.isDefault) with
  | none => rfl
  | some t =>
    have hdefault : t.isDefault := find?_some hfound
    obtain ⟨hrepository, hpath⟩ := Bool.and_eq_true_iff.mp hdefault
    simp [additionalInputs, Target.textInput, hrepository, hpath]

theorem defaultStep_eq_ok (hpin : pin "actions/checkout" = .ok reference) (h : plan.Indexed) :
    ∃ step, plan.defaultStep pin none = .ok step ∧ plan.root.CheckedOutBy reference step := by
  refine ⟨_, ?_, checkedOutBy_step reference "Checkout repository" plan.root⟩
  rw [defaultStep, hpin, defaultInputs_none h]
  rfl

theorem additionalSteps_eq_ok (hpin : pin "actions/checkout" = .ok reference) (plan : Plan) :
    ∃ steps, plan.additionalSteps pin = .ok steps ∧
      Forall₂ (Target.CheckedOutBy reference) (plan.targets.filter fun t => !t.isDefault)
        steps := by
  have hstep : ∀ t : Target, (do
      let reference ← pin "actions/checkout"
      .ok (step reference ("Checkout " ++ t.label) (additionalInputs t)) : Outcome Value) =
        .ok (step reference ("Checkout " ++ t.label) (additionalInputs t)) := by
    intro t
    rw [hpin]
    rfl
  obtain ⟨steps, hsteps⟩ : ∃ steps, plan.additionalSteps pin = .ok steps :=
    exists_mapM_ok.mpr fun t _ => ⟨_, hstep t⟩
  refine ⟨steps, hsteps, (mapM_eq_ok.mp hsteps).imp fun t s hs => ?_⟩
  obtain rfl := Except.ok.inj ((hstep t).symm.trans hs)
  exact checkedOutBy_step reference _ t

/-- **Requests are merged by place.**  A plan has one target for each place that is asked for,
in the order of the first requests, and its index tells where each stands.  Every target is
what the requests for its place make together; of that, depth and flags do not depend on the
order of the requests.  Wherever checkouts can be pinned at all, the root of the workspace and
every other target become one step each, which is told what the target says. -/
theorem requests_merge_by_place (requests : List Request) :
    let plan := ofRequests requests
    plan.keys = (requests.map Request.key).eraseDups ∧ plan.Indexed ∧
      (∀ t ∈ plan.targets, t.Merges (requests.filter fun r => r.key == t.key)) ∧
      (∀ others : List Request, others.Perm requests → ∀ t ∈ plan.targets,
        ∃ t' ∈ (ofRequests others).targets, t'.key = t.key ∧ t'.fetchDepth = t.fetchDepth ∧
          t'.lfs = t.lfs ∧ t'.current = t.current) ∧
      ∀ (pin : PinResolver) reference, pin "actions/checkout" = .ok reference →
        ∃ root additional,
          plan.defaultStep pin none = .ok root ∧ plan.root.CheckedOutBy reference root ∧
          plan.additionalSteps pin = .ok additional ∧
          Forall₂ (Target.CheckedOutBy reference) (plan.targets.filter fun t => !t.isDefault)
            additional := by
  intro plan
  have hindexed := indexed_ofRequests requests
  refine ⟨keys_ofRequests requests, hindexed, fun t => merges_of_mem,
    fun others hperm t => exists_target_of_perm hperm, fun pin reference hpin => ?_⟩
  obtain ⟨root, hroot, hrootBy⟩ := defaultStep_eq_ok hpin hindexed
  obtain ⟨additional, hadditional, hadditionalBy⟩ := additionalSteps_eq_ok hpin plan
  exact ⟨root, additional, hroot, hrootBy, hadditional, hadditionalBy⟩

/-- Two requests for the root of the workspace, the second of which spells it as a dot, with one
for another repository between them. -/
def sampleRequests : List Request :=
  [{ ref := "main", fetchDepth := some 5, sparse := " src \n\ndocs" },
   { repository := "octo/tools", path := "tools", fetchDepth := some 1, lfs := true },
   { path := ".", ref := "dev", token := "t", fetchDepth := some 0, sparse := "docs\nlib",
     current := true }]

theorem sampleRequests_merge :
    resolvePin "actions/checkout" =
        .ok "actions/checkout@08c6903cd8c0fde910a37f88322edcfb5dd907a8 # v5.0.0" ∧
      (ofRequests sampleRequests).keys = [("", ""), ("octo/tools", "tools")] ∧
      ∃ root additional,
        (ofRequests sampleRequests).defaultStep resolvePin none = .ok root ∧
        root.at? [.key "with", .key "fetch-depth"] = some (.int 0) ∧
        root.at? [.key "with", .key "ref"] = some (.str "main") ∧
        root.at? [.key "with", .key "sparse-checkout"] = some (.str "src\ndocs\nlib\n") ∧
        (ofRequests sampleRequests).additionalSteps resolvePin = .ok additional ∧
        additional.length = 1 := by
  have hpin : resolvePin "actions/checkout" =
      .ok "actions/checkout@08c6903cd8c0fde910a37f88322edcfb5dd907a8 # v5.0.0" := by rfl
  obtain ⟨hkeys, -, -, -, hsteps⟩ := requests_merge_by_place sampleRequests
  obtain ⟨root, additional, hroot, hrootBy, hadditional, hadditionalBy⟩ :=
    hsteps resolvePin _ hpin
  have htarget : (ofRequests sampleRequests).root =
      { repository := "", path := "", ref := "main", token := "t", fetchDepth := some 0,
        patterns := ["src", "docs", "lib"], current := true } := by decide
  rw [htarget] at hrootBy
  refine ⟨hpin, hkeys.trans (by decide), root, additional, hroot, ?_, ?_, ?_, hadditional, ?_⟩
  · exact (hrootBy.told _).trans (by rfl)
  · exact (hrootBy.told _).trans (by rfl)
  · exact (hrootBy.told _).trans (by rfl)
  · exact hadditionalBy.length_eq.symm.trans (by decide)

end Plan

end FlowLock.Checkout
