import FlowLock.Proofs.SafeOutput.Token
import FlowLock.Proofs.Step
import FlowLock.Proofs.Workflow.Builders

/-!
# The processing job around a token

The processing job tells its handlers what to do in one variable of its last step.  A token of
a type that is handled stands there, in the JSON text of the variable, and nowhere else in the
job: the other variables, steps and settings of the job are made without it.
-/

namespace FlowLock

open Outcome SafeOutput List Table Value

theorem orFatal_eq_ok {α : Type} {found : Option α} {a : α} :
    orFatal found = .ok a ↔ found = some a := by
  cases found <;> simp [orFatal]

def Job.settings (job : Job) : Table Value :=
  needsEntry job.needs ++
  (if job.condition.isEmpty then [] else [("if", .str job.condition)]) ++
  [("runs-on", job.runsOn), ("permissions", job.permissions.toValue)] ++
  (if job.concurrency.isNull then [] else [("concurrency", job.concurrency)]) ++
  (if job.environment.isEmpty then [] else [("env", .obj job.environment.sorted)]) ++
  (match job.timeoutMinutes with
    | some minutes => [("timeout-minutes", .int minutes)]
    | none => []) ++
  (if job.outputs.isEmpty then [] else [("outputs", .obj job.outputs)])

theorem Job.settings_eq (job : Job) : job.settings = { job with outputs := [] }.settings ++
      if job.outputs.isEmpty then [] else [("outputs", .obj job.outputs)] := by
  simp [settings]

theorem Job.not_mem_settings (job : Job) {key : String}
    (h : key ∉ ["needs", "if", "runs-on", "permissions", "concurrency", "env",
      "timeout-minutes"]) : key ∉ Table.keys { job with outputs := [] }.settings := by
  simp only [mem_cons, not_mem_nil, or_false, not_or] at h
  obtain ⟨hneeds, hif, hruns, hpermissions, hconcurrency, henv, htimeout⟩ := h
  have hentry : ∀ {c : Prop} [Decidable c] {name : String} {v : Value}, key ≠ name →
      key ∉ keys (if c then [] else [(name, v)]) := by
    intro c _ name v hne
    split
    · exact not_mem_nil
    · exact not_mem_keys_singleton hne.symm v
  have hneedsEntry : key ∉ keys (needsEntry job.needs) := by
    unfold needsEntry
    split <;> simp [Table.keys, hneeds]
  have htimeoutEntry : key ∉ keys (match job.timeoutMinutes with
      | some minutes => [("timeout-minutes", int minutes)]
      | none => []) := by
    split
    · exact not_mem_keys_singleton (Ne.symm htimeout) _
    · exact not_mem_nil
  simp only [settings, Table.keys_append, mem_append, not_or]
  exact ⟨⟨⟨⟨⟨⟨hneedsEntry, hentry hif⟩, by simp [Table.keys, hruns, hpermissions]⟩,
    hentry hconcurrency⟩, hentry henv⟩, htimeoutEntry⟩, not_mem_nil⟩

theorem Job.steps_not_mem_settings (job : Job) : "steps" ∉ keys job.settings := by
  rw [settings_eq, Table.keys_append, mem_append, not_or]
  refine ⟨job.not_mem_settings (by decide), ?_⟩
  split
  · exact not_mem_nil
  · exact not_mem_keys_singleton (by decide) _

theorem Job.at?_outputs (job : Job) (key : String) :
    job.toValue.at? [.key "outputs", .key key] = job.outputs.get? key := by
  have hbefore := job.not_mem_settings (show "outputs" ∉ _ by decide)
  have hvalue : job.toValue = .obj (job.settings ++ [("steps", .list job.steps)]) := rfl
  rw [hvalue, settings_eq, at?_obj, get?_append, get?_append,
    get?_eq_none_iff.mpr hbefore, Option.none_or]
  cases houtputs : job.outputs with
  | nil => rfl
  | cons e outputs => exact at?_obj_key (e :: outputs) key

/-- The token that a type declares for the extra commit; empty when it declares none. -/
def SafeOutput.Output.commitToken (o : Output) : String := o.text Kind.commitToken.name

namespace SafeOutputs

variable {s : SafeOutputs} {o : Output} {t environment : Table String} {os : List Output}
  {contributed : List (Table String)}

/-! ## Its environment -/

def configVariable : String := "GH_AW_SAFE_OUTPUTS_HANDLER_CONFIG"

/-- What ends the names of the variables that a type contributes. -/
def variableSuffixes : List String :=
  ["_ALLOWED", "_BLOCKED", "_MAX_COUNT", "_TARGET", "_REQUIRED_LABELS", "_REQUIRED_TITLE_PREFIX",
   "_REQUIRED_CATEGORY"]

/-- The variables of a type are named by its stem and an ending. -/
theorem exists_suffix_of_environment {key : String} (h : o.environment = .ok t)
    (hkey : key ∈ Table.keys t) :
    ∃ suffix ∈ variableSuffixes, key = o.kind.spec.variableStem ++ suffix := by
  have hvariable : ∀ {suffix value : String}, suffix ∈ variableSuffixes →
      key ∈ Table.keys (Output.oneVariable (o.kind.spec.variableStem ++ suffix) value) →
      ∃ suffix ∈ variableSuffixes, key = o.kind.spec.variableStem ++ suffix := by
    intro suffix value hsuffix hkey
    unfold Output.oneVariable at hkey
    split at hkey
    · cases hkey
    · exact ⟨suffix, hsuffix, mem_singleton.mp hkey⟩
  unfold Output.environment at h
  dsimp only at h
  split at h
  · cases h
    cases hkey
  · split at h
    · obtain ⟨limit, -, h⟩ := bind_eq_ok.mp h
      cases h
      rw [Table.keys_append, mem_append] at hkey
      obtain hkey | hkey := hkey
      · simp only [Table.keys, map_cons, map_nil, mem_cons, not_mem_nil, or_false] at hkey
        obtain rfl | rfl | rfl := hkey <;> exact ⟨_, by decide, rfl⟩
      · exact hvariable (by decide) hkey
    · cases h
      simp only [Table.keys_append, mem_append] at hkey
      obtain ((hkey | hkey) | hkey) | hkey := hkey
      · exact hvariable (by decide) hkey
      · split at hkey
        · cases hkey
        · exact ⟨_, by decide, mem_singleton.mp hkey⟩
      · exact hvariable (by decide) hkey
      · exact hvariable (by decide) hkey
    · cases h
      cases hkey

theorem exists_mem_of_contributed (h : os.mapM (·.environment) = .ok contributed)
    {e : String × String} (he : e ∈ contributed.flatten) :
    ∃ o ∈ os, ∃ t, o.environment = .ok t ∧ e ∈ t := by
  obtain ⟨t, ht, he⟩ := mem_flatten.mp he
  have hmade := Gives.mapM (Q := fun t => ∃ o ∈ os, o.environment = .ok t)
    (fun o ho t ht => ⟨o, ho, ht⟩) contributed h
  obtain ⟨o, ho, hmade⟩ := hmade t ht
  exact ⟨o, ho, t, hmade, he⟩

theorem not_mem_contributed (key : String)
    (hkey : ∀ kind ∈ Kind.all, ∀ suffix ∈ variableSuffixes, key ≠ kind.spec.variableStem ++ suffix)
    (h : os.mapM (·.environment) = .ok contributed) : key ∉ Table.keys contributed.flatten := by
  intro hmem
  obtain ⟨e, he, rfl⟩ := mem_map.mp hmem
  obtain ⟨o, -, t, ht, he⟩ := exists_mem_of_contributed h he
  obtain ⟨suffix, hsuffix, hname⟩ := exists_suffix_of_environment ht (mem_map_of_mem he)
  exact hkey o.kind (Kind.mem_all o.kind) suffix hsuffix hname

theorem not_mem_messages (key : String) (hkey : "GH_AW_SAFE_OUTPUT_MESSAGES" ≠ key)
    (h : s.messageVariables = .ok t) : key ∉ Table.keys t := by
  unfold messageVariables at h
  split at h
  · cases h
    exact not_mem_nil
  · obtain ⟨text, -, h⟩ := bind_eq_ok.mp h
    cases h
    exact not_mem_keys_singleton hkey _

theorem triggerSetting?_withToken (s : SafeOutputs) (kind : Kind) (token : String) :
    (s.withToken kind token).triggerSetting? = s.triggerSetting? := by
  rw [triggerSetting?, triggerSetting?, handled_withToken, find?_map, Option.map_map]
  rfl

/-- The environment of the processing step, the configuration of the handlers apart. -/
def settledVariables (s : SafeOutputs) : Table String :=
  (match s.triggerSetting? with
    | some setting => [("GH_AW_CI_TRIGGER_TOKEN", triggerToken setting)]
    | none => []) ++
  (if s.staged then [("GH_AW_SAFE_OUTPUTS_STAGED", "true")] else []) ++
  (if s.maxPatchSize == 0 then [] else [("GH_AW_MAX_PATCH_SIZE", toString s.maxPatchSize)]) ++
  (if s.allowedDomains.isEmpty then []
   else [("GH_AW_ALLOWED_DOMAINS", ",".intercalate s.allowedDomains)])

/-- A variable that no type contributes and that is not the one for messages is one of the first. -/
theorem get?_processingEnvironment (key : String) (h : s.processingEnvironment = .ok environment)
    (hmessage : "GH_AW_SAFE_OUTPUT_MESSAGES" ≠ key)
    (hkey : ∀ kind ∈ Kind.all, ∀ suffix ∈ variableSuffixes, key ≠ kind.spec.variableStem ++ suffix) :
    ∃ config text, s.handlerConfig = .ok config ∧ Json.encode? Json.compact config = some text ∧
      environment.get? key = Table.get? ((configVariable, text) :: s.settledVariables) key := by
  simp only [processingEnvironment, bind_eq_ok] at h
  obtain ⟨config, hconfig, text, htext, messages, hmessages, contributed, hcontributed, h⟩ := h
  cases h
  refine ⟨config, text, hconfig, orFatal_eq_ok.mp htext, ?_⟩
  rw [get?_update, get?_update, last?_eq_none_iff.mpr (not_mem_contributed key hkey hcontributed),
    last?_eq_none_iff.mpr (not_mem_messages key hmessage hmessages)]
  rfl

theorem configVariable_not_mem_settledVariables (s : SafeOutputs) :
    configVariable ∉ Table.keys s.settledVariables := by
  simp only [settledVariables, Table.keys_append, mem_append, not_or]
  refine ⟨⟨⟨?_, ?_⟩, ?_⟩, ?_⟩
  · split
    · exact not_mem_keys_singleton (by decide) _
    · exact not_mem_nil
  · split
    · exact not_mem_keys_singleton (by decide) _
    · exact not_mem_nil
  · split
    · exact not_mem_nil
    · exact not_mem_keys_singleton (by decide) _
  · split
    · exact not_mem_nil
    · exact not_mem_keys_singleton (by decide) _

/-- **The environment of the processing step around the token**: the variable for the handlers
comes first, and only its text depends on the token. -/
theorem exists_processingEnvironment (ho : o ∈ s.handled)
    (h : s.processingEnvironment = .ok environment) :
    ∃ (around : Surroundings o.kind) (rest : Table String), configVariable ∉ Table.keys rest ∧
      ∀ token, ∃ text, Json.decode? text = some (around.config (Text.joined token)) ∧
        (s.withToken o.kind token).processingEnvironment =
          .ok ((configVariable, text) :: rest) := by
  simp only [processingEnvironment, bind_eq_ok] at h
  obtain ⟨config, hconfig, written, hwritten, messages, hmessages, contributed, hcontributed, -⟩ :=
    h
  obtain ⟨around, hjson, hall⟩ := exists_handlerConfig ho hconfig
  have hself := hall o.token
  rw [withToken_self (mem_of_mem_filter ho), hconfig] at hself
  obtain rfl : config = around.config o.token := Except.ok.inj hself
  have hsome := Option.isSome_of_eq_some (orFatal_eq_ok.mp hwritten)
  have hflat := not_mem_contributed configVariable (by decide) hcontributed
  have hmessage := not_mem_messages configVariable (by decide) hmessages
  refine ⟨around.joined, update (update s.settledVariables messages)
    contributed.flatten, ?_, fun token => ?_⟩
  · rw [← get?_eq_none_iff, get?_update, get?_update,
      last?_eq_none_iff.mpr hflat, last?_eq_none_iff.mpr hmessage,
      get?_eq_none_iff.mpr (configVariable_not_mem_settledVariables s)]
    rfl
  · obtain ⟨text, htext, hdecode⟩ := Surroundings.exists_text hjson hsome token
    refine ⟨text, hdecode, ?_⟩
    have hcontribute : (s.withToken o.kind token).handled.mapM (·.environment) =
        s.handled.mapM (·.environment) := by
      rw [handled_withToken, mapM_map]
      rfl
    rw [processingEnvironment, hall, ok_bind, htext, hcontribute, hcontributed,
      triggerSetting?_withToken]
    change (do
      let messages ← s.messageVariables
      .ok (update (update ((configVariable, text) :: s.settledVariables) messages)
        contributed.flatten) : Outcome (Table String)) = _
    rw [hmessages, ok_bind, update_cons_of_not_mem hmessage, update_cons_of_not_mem hflat]

/-! ## Its step -/

def configPlace : List Turn := [.key "env", .key configVariable]

theorem exists_step {script : Step.Script} (hid : script.id.isEmpty = false) {v : Value}
    (h : Step.script ctx script = .ok v) {rest : Table String}
    (hrest : configVariable ∉ Table.keys rest) :
    ∃ step : String → Value, Around configPlace step ∧
      (∀ text, (step text).at? [.key "id"] = some (.str script.id)) ∧
      ∀ text, Step.script ctx
        { script with environment := textValues ((configVariable, text) :: rest) } =
          .ok (step text) := by
  obtain ⟨uses, program, -, hscript⟩ := Step.exists_script h
  have hvalues : configVariable ∉ Table.keys (textValues rest) := by
    rw [Table.keys, textValues, map_map]
    exact hrest
  have hhead : "env" ∉ Table.keys (Step.scriptHead script uses) :=
    Table.get?_eq_none_iff.mp (Step.get?_scriptHead (by decide) script uses)
  have htail : "env" ∉ Table.keys (Step.scriptTail script program) :=
    Table.get?_eq_none_iff.mp (Step.get?_scriptTail (by decide) script program)
  refine ⟨_, (Around.sorted hvalues).key hhead htail, fun text => ?_, fun text => ?_⟩
  · rw [at?_obj_key, get?_append, Step.get?_scriptHead_id hid]
    rfl
  · rw [hscript, append_assoc]
    rfl

theorem usesProjects_withToken (s : SafeOutputs) (kind : Kind) (token : String) :
    (s.withToken kind token).usesProjects = s.usesProjects :=
  any_map

theorem processingToken_withToken (s : SafeOutputs) (kind : Kind) (token : String) :
    (s.withToken kind token).processingToken = s.processingToken := by
  rw [processingToken, processingToken, usesProjects_withToken]
  rfl

theorem patchSteps_withToken (s : SafeOutputs) (kind : Kind) (token : String) (ctx : Context) :
    (s.withToken kind token).patchSteps ctx = s.patchSteps ctx := by
  rw [patchSteps, patchSteps, triggerSetting?_withToken]

variable {ctx : Context} {name id tracker : String} {steps : List Value} {setting : String}

theorem not_mem_identity {key : String}
    (h : key ∉ ["GH_AW_WORKFLOW_NAME", "GH_AW_WORKFLOW_ID", "GH_AW_TRACKER_ID"])
    (name id tracker : String) : key ∉ Table.keys (identity name id tracker) := by
  simp only [mem_cons, not_mem_nil, or_false, not_or] at h
  rw [identity, Table.keys_append, mem_append, not_or]
  refine ⟨by simp [Table.keys, h], ?_⟩
  split
  · exact not_mem_nil
  · exact not_mem_keys_singleton (Ne.symm h.2.2) _

theorem exists_jobSteps (ho : o ∈ s.handled) (h : s.jobSteps ctx name id tracker = .ok steps) :
    ∃ (around : Surroundings o.kind) (before : List Value) (step : String → Value),
      Around configPlace step ∧
      (∀ text, (step text).at? [.key "id"] = some (.str stepId)) ∧
      ∀ token, ∃ text, Json.decode? text = some (around.config (Text.joined token)) ∧
        (s.withToken o.kind token).jobSteps ctx name id tracker = .ok (before ++ [step text]) := by
  simp only [jobSteps, bind_eq_ok] at h
  obtain ⟨setup, hsetup, app, happ, output, houtput, patch, hpatch, environment, henvironment,
    process, hprocess, -⟩ := h
  obtain ⟨around, rest, hrest, hall⟩ := exists_processingEnvironment ho henvironment
  have hidentity := not_mem_identity (show configVariable ∉ _ by decide) name id tracker
  have hkeys : configVariable ∉ Table.keys (Table.update rest (identity name id tracker)) := by
    rw [← get?_eq_none_iff, get?_update, last?_eq_none_iff.mpr hidentity,
      get?_eq_none_iff.mpr hrest]
    rfl
  have hsome : stepId.isEmpty = false := by decide
  obtain ⟨step, haround, hid, hstep⟩ := exists_step hsome hprocess hkeys
  refine ⟨around, setup ++ app ++ output ++ patch ++ s.steps, step, haround, hid, fun token => ?_⟩
  obtain ⟨text, hdecode, henvironment⟩ := hall token
  refine ⟨text, hdecode, ?_⟩
  have happ : (s.withToken o.kind token).appSteps ctx = .ok app := happ
  rw [jobSteps, hsetup, ok_bind, happ, ok_bind, houtput, ok_bind, patchSteps_withToken, hpatch,
    ok_bind, henvironment, ok_bind, processingToken_withToken,
    update_cons_of_not_mem hidentity, hstep]
  rfl

/-! ## The job -/

def jobPlace (index : Nat) : List Turn := .key "steps" :: .item index :: configPlace

theorem map_handled_withToken {α : Type} {f : Output → α}
    (hf : ∀ kind token o, f (Output.withToken kind token o) = f o) (s : SafeOutputs) (kind : Kind)
    (token : String) : (s.withToken kind token).handled.map f = s.handled.map f := by
  rw [handled_withToken, map_map]
  exact map_congr_left fun o _ => hf kind token o

theorem jobCondition_withToken (s : SafeOutputs) (kind : Kind) (token : String) :
    (s.withToken kind token).jobCondition = s.jobCondition := by
  have hasks := map_handled_withToken (f := fun o => asksFor o.kind)
    (fun _ _ _ => congrArg asksFor rfl) s kind token
  unfold jobCondition
  rw [hasks]

theorem jobPermissions_withToken (s : SafeOutputs) (kind : Kind) (token : String) :
    (s.withToken kind token).jobPermissions = s.jobPermissions := by
  have hpermissions : (s.withToken kind token).permissions = s.permissions := by
    rw [permissions, map_handled_withToken fun _ _ _ => rfl, permissions]
  rw [jobPermissions, hpermissions]
  rfl

theorem exposed_withToken (s : SafeOutputs) (kind : Kind) (token : String) :
    (s.withToken kind token).exposed = s.exposed := by
  rw [exposed, flatMap_def, map_handled_withToken fun _ _ _ => rfl, ← flatMap_def]
  rfl

def processingJob (s : SafeOutputs) (steps : List Value) : Job :=
  { name := jobName
    needs := ["activation", "agent"]
    condition := s.jobCondition
    runsOn := .str s.runsOn
    permissions := s.jobPermissions
    timeoutMinutes := some 15
    environment := textValues s.environment
    outputs := s.jobOutputs
    steps }

theorem job?_of_handled (hhandled : s.handled ≠ []) (h : s.jobSteps ctx name id tracker = .ok steps)
    : s.job? ctx name id tracker = .ok (some (s.processingJob steps)) := by
  rw [job?, isEmpty_eq_false_iff.mpr hhandled, if_neg Bool.false_ne_true, h]
  rfl

theorem processingJob_withToken (s : SafeOutputs) (kind : Kind) (token : String)
    (steps : List Value) :
    (s.withToken kind token).processingJob steps = s.processingJob steps := by
  unfold processingJob jobOutputs
  rw [jobCondition_withToken, jobPermissions_withToken, exposed_withToken]
  rfl

/-- **The processing job around the token**: the text for the handlers stands at one place of
the job, in the step that carries out the safe outputs, and only that text depends on the
token. -/
theorem exists_job? (ho : o ∈ s.handled) {found : Option Job}
    (h : s.job? ctx name id tracker = .ok found) :
    ∃ (around : Surroundings o.kind) (index : Nat) (job : String → Job),
      Around (jobPlace index) (fun text => (job text).toValue) ∧
      (∀ text, (job text).toValue.at? [.key "steps", .item index, .key "id"] =
        some (.str stepId)) ∧
      (∀ text, (job text).outline = Workflow.processingOutline s) ∧
      ∀ token, ∃ text, Json.decode? text = some (around.config (Text.joined token)) ∧
        (s.withToken o.kind token).job? ctx name id tracker = .ok (some (job text)) := by
  have hhandled : s.handled ≠ [] := ne_nil_of_mem ho
  have hsome : ∀ token, (s.withToken o.kind token).handled ≠ [] := by
    intro token
    rw [handled_withToken]
    exact mt map_eq_nil_iff.mp hhandled
  rw [job?, isEmpty_eq_false_iff.mpr hhandled, if_neg Bool.false_ne_true] at h
  obtain ⟨steps, hsteps, -⟩ := bind_eq_ok.mp h
  obtain ⟨around, before, step, haround, hid, hall⟩ := exists_jobSteps ho hsteps
  have hsettings := (s.processingJob []).steps_not_mem_settings
  refine ⟨around, before.length, fun text => s.processingJob (before ++ [step text]),
    (haround.last before).key hsettings not_mem_nil, fun text => ?_, fun text => rfl,
    fun token => ?_⟩
  · exact (at?_obj_of_not_mem hsettings _ _ _).trans
      ((at?_list_last before _ _).trans (hid text))
  · obtain ⟨text, hdecode, hsteps⟩ := hall token
    refine ⟨text, hdecode, ?_⟩
    rw [job?_of_handled (hsome token) hsteps, processingJob_withToken]

/-! ## The token of the extra commit -/

def triggerVariable : String := "GH_AW_CI_TRIGGER_TOKEN"

theorem get?_triggerVariable (h : s.processingEnvironment = .ok environment)
    (hset : s.triggerSetting? = some setting) :
    environment.get? triggerVariable = some (triggerToken setting) := by
  obtain ⟨config, text, -, -, hget⟩ :=
    get?_processingEnvironment triggerVariable h (by decide) (by decide)
  rw [hget, settledVariables, hset]
  rfl

/-- The first type that pushes commits is the one that creates pull requests, if it is there. -/
theorem find?_isPush_createPullRequest (hhandled : s.handled.find? (·.kind.isPush) = some o)
    (hkind : o.kind ≠ .createPullRequest) : ∀ other ∈ s.outputs, other.kind ≠ .createPullRequest := by
  intro other hother hcreate
  have hsorted : s.handled.Pairwise fun o other =>
      o.kind.isPush = true → o.kind ≠ .createPullRequest → other.kind ≠ .createPullRequest := by
    have hall : Kind.all.Pairwise fun kind other =>
        kind.isPush = true → kind ≠ .createPullRequest → other ≠ .createPullRequest := by decide
    exact (pairwise_map.mp (hall.sublist s.ordered)).sublist filter_sublist
  obtain ⟨hpush, before, after, heq, hbefore⟩ := find?_eq_some_iff_append.mp hhandled
  have hmem : other ∈ s.handled := mem_filter.mpr ⟨hother, by rw [hcreate]; rfl⟩
  rw [heq, mem_append, mem_cons] at hmem
  obtain hmem | rfl | hmem := hmem
  · have hnot := hbefore other hmem
    rw [hcreate] at hnot
    exact absurd hnot (by decide)
  · exact hkind hcreate
  · rw [heq] at hsorted
    exact (pairwise_cons.mp (pairwise_append.mp hsorted).2.1).1 other hmem hpush hkind hcreate

theorem triggerToken_eq_default (h : setting ≠ "") :
    triggerToken setting = triggerToken "" ↔
      setting = Step.expression "secrets.GH_AW_CI_TRIGGER_TOKEN" := by
  rw [triggerToken, if_neg (by simpa using h)]
  split
  · next happ => rw [beq_iff_eq.mp happ]; decide
  · rfl

theorem trigger_token_kept_iff {steps : List Value}
    (h : s.jobSteps ctx name id tracker = .ok steps) (ho : o ∈ s.outputs)
    (hpush : o.kind.isPush = true) (hdeclares : o.commitToken ≠ "")
    (honly : ∀ other ∈ s.outputs, other.kind.isPush = true → other.commitToken ≠ "" → other = o) :
    ∃ before step, steps = before ++ [step] ∧ step.at? [.key "id"] = some (.str stepId) ∧
      (step.at? [.key "env", .key triggerVariable] = some (.str (triggerToken o.commitToken)) ↔
        o.kind = .createPullRequest ∨ (∀ other ∈ s.outputs, other.kind ≠ .createPullRequest) ∨
          o.commitToken = Step.expression "secrets.GH_AW_CI_TRIGGER_TOKEN") := by
  simp only [jobSteps, bind_eq_ok] at h
  obtain ⟨setup, -, app, -, output, -, patch, -, environment, henvironment, process, hprocess, h⟩ :=
    h
  cases h
  refine ⟨_, process, rfl, Step.id_script hprocess (show stepId.isEmpty = false by decide), ?_⟩
  have hreport : o.kind.isReport = false := by revert hpush; cases o.kind <;> decide
  have hhandled : o ∈ s.handled := mem_filter.mpr ⟨ho, by rw [hreport]; rfl⟩
  have hsome : (s.handled.find? fun o => o.kind.isPush).isSome :=
    find?_isSome.mpr ⟨o, hhandled, hpush⟩
  obtain ⟨first, hfirst⟩ := Option.isSome_iff_exists.mp hsome
  have hfirstMem := mem_of_mem_filter (mem_of_find?_eq_some hfirst)
  have hshown : process.at? [.key "env", .key triggerVariable] =
      some (.str (triggerToken first.commitToken)) := by
    have hidentity := not_mem_identity (show triggerVariable ∉ _ by decide) name id tracker
    have hset : s.triggerSetting? = some first.commitToken := congrArg (Option.map _) hfirst
    refine (Step.env_script hprocess _).trans ((get?_map _ _ _).trans ?_)
    rw [get?_update, last?_eq_none_iff.mpr hidentity, Option.none_or,
      get?_triggerVariable henvironment hset]
    rfl
  rw [hshown, Option.some_inj, str.injEq]
  by_cases hcreate : first.kind = .createPullRequest
  · by_cases heq : first = o
    · exact ⟨fun _ => .inl (heq ▸ hcreate), fun _ => by rw [heq]⟩
    · -- The type that creates pull requests comes first and declares no token.
      have hnone : first.commitToken = "" := by
        by_contra hne
        exact heq (honly first hfirstMem (by rw [hcreate]; rfl) hne)
      have hkind : o.kind ≠ .createPullRequest := fun hkind =>
        heq (inj_on_of_nodup_map s.nodup_kinds hfirstMem ho (hcreate.trans hkind.symm))
      rw [hnone, eq_comm, triggerToken_eq_default hdeclares]
      refine ⟨fun heq => .inr (.inr heq), ?_⟩
      rintro (hkind' | hno | heq)
      · exact absurd hkind' hkind
      · exact absurd hcreate (hno first hfirstMem)
      · exact heq
  · have hno := find?_isPush_createPullRequest hfirst hcreate
    have heq : first = o := by
      refine inj_on_of_nodup_map s.nodup_kinds hfirstMem ho ?_
      have hne := hno o ho
      have hfirstPush := find?_some hfirst
      revert hpush hfirstPush hcreate hne
      cases first.kind <;> cases o.kind <;> decide
    exact ⟨fun _ => .inr (.inl hno), fun _ => by rw [heq]⟩

def pushing : Output :=
  { kind := .pushToPullRequestBranch, max := some "1", token := "", target := {}
    settings := [(Kind.commitToken.name, .text "mine")] }

theorem trigger_token_kept_iff_alone :
    ∃ s : SafeOutputs, ∃ before step, s.outputs = [pushing] ∧
      s.jobSteps {} "W" "w" "" = .ok (before ++ [step]) ∧
      step.at? [.key "env", .key triggerVariable] = some (.str "mine") := by
  let s : SafeOutputs :=
    { outputs := [pushing]
      ordered := show [Kind.pushToPullRequestBranch].Sublist Kind.all by decide }
  obtain ⟨steps, h⟩ : ∃ steps, s.jobSteps {} "W" "w" "" = .ok steps := by decide +kernel
  obtain ⟨before, step, rfl, -, hkept⟩ := trigger_token_kept_iff h mem_cons_self rfl (by decide)
    fun other hother _ _ => mem_singleton.mp hother
  exact ⟨s, before, step, rfl, h, hkept.mpr (.inr (.inl (by decide)))⟩

/-- After a type that declares no token, the token of the type is lost. -/
theorem commit_token_lost :
    ∃ s : SafeOutputs, pushing ∈ s.outputs ∧ pushing.commitToken = "mine" ∧
      (∀ other ∈ s.outputs, other.commitToken ≠ "" → other = pushing) ∧
      ∃ environment, s.processingEnvironment = .ok environment ∧
        environment.get? triggerVariable ≠ some (triggerToken "mine") := by
  let first : Output := { kind := .createPullRequest, max := some "1", token := "", target := {}, settings := [] }
  let s : SafeOutputs :=
    { outputs := [first, pushing]
      ordered := show [Kind.createPullRequest, .pushToPullRequestBranch].Sublist Kind.all by decide }
  exact ⟨s, by decide, by decide, by decide, by decide +kernel⟩

end SafeOutputs

end FlowLock
