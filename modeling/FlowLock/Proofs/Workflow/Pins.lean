import FlowLock.Proofs.Step
import FlowLock.Proofs.Workflow.Compare

/-!
# Steps and the actions they use

The builders ask a resolver for the actions that steps use.  What they build with the known
pins and with another resolver is compared side by side: the other resolver may answer with
other texts, and each answer is found under `uses` in one step and nowhere else.
-/

namespace FlowLock

open Outcome List Step Table

/-- Two mappings that are the same but for one text under `uses`. -/
inductive OneUse (old new : String) : Entries → Entries → Prop
  | here {es : Entries} : OneUse old new ((.str "uses", .str old) :: es)
      ((.str "uses", .str new) :: es)
  | there {e : Value × Value} {es es' : Entries} (he : e.1.isStr "uses" = false)
      (h : OneUse old new es es') : OneUse old new (e :: es) (e :: es')

namespace OneUse

variable {old new : String} {es es' : Entries}

theorem append_left {before : Entries} (hbefore : ∀ e ∈ before, e.1.isStr "uses" = false)
    (h : OneUse old new es es') : OneUse old new (before ++ es) (before ++ es') := by
  induction before with
  | nil => exact h
  | cons e before ih =>
    obtain ⟨he, hbefore⟩ := forall_mem_cons.mp hbefore
    exact .there he (ih hbefore)

theorem append_right (h : OneUse old new es es') (after : Entries) :
    OneUse old new (es ++ after) (es' ++ after) := by
  induction h with
  | here => exact .here
  | there he _ ih => exact .there he ih

end OneUse

/-- Two steps that are the same, or differ in the action they use: it is the known one with
its release, or what a resolver gives in its place. -/
inductive Step.Repinned (q : PinResolver) : Value → Value → Prop
  | same (step : Value) : Repinned q step step
  | uses {pin : ActionPin} (hpin : pin ∈ ActionPin.known) {text : String}
      (htext : q pin.repo = .ok text) {es es' : Entries} (h : OneUse pin.reference text es es') :
      Repinned q (.map es) (.map es')

/-- A resolver that knows the actions that compiled workflows use. -/
def PinResolver.IsComplete (q : PinResolver) : Prop :=
  ∀ pin ∈ ActionPin.known, ∃ text, q pin.repo = .ok text

def commitOnly : PinResolver := fun repo =>
  match ActionPin.known.find? fun pin => pin.repo == repo with
  | some pin => .ok (pin.repo ++ "@" ++ pin.commit)
  | none =>
    .error (.schema "uses" (.unpinnedAction repo (Text.sorted (ActionPin.known.map (·.repo)))))

def Context.repin (ctx : Context) (q : PinResolver) : Context := { ctx with pin := q }

/-- Two jobs that are the same but for the actions that their steps use. -/
def Job.Repinned (q : PinResolver) (job job' : Job) : Prop :=
  job' = { job with steps := job'.steps } ∧ Forall₂ (Step.Repinned q) job.steps job'.steps

theorem Step.mem_textEntry {key text : String} {e : Value × Value}
    (h : e ∈ (textEntry key text).map fun x => (Value.str x.1, x.2)) : .str key = e.1 := by
  unfold textEntry at h
  split at h
  · cases h
  · rw [mem_singleton.mp h]

def PinResolver.Extends (q p : PinResolver) : Prop :=
  ∀ repo old, p repo = .ok old → ∃ new, q repo = .ok new

theorem exists_pin {repo text : String} (h : resolvePin repo = .ok text) :
    ∃ pin ∈ ActionPin.known, pin.repo = repo ∧ text = pin.reference := by
  unfold resolvePin at h
  split at h
  · next pin hfind =>
    cases h
    exact ⟨pin, mem_of_find?_eq_some hfind, by simpa using find?_some hfind, rfl⟩
  · cases h

theorem extends_of_isComplete {q : PinResolver} (h : q.IsComplete) :
    q.Extends resolvePin := by
  intro repo old hold
  obtain ⟨pin, hpin, rfl, -⟩ := exists_pin hold
  exact h pin hpin

/-! ## Tokens of steps -/

namespace Step

def Reads (step : Value) (token : String) : Prop :=
  step.at? [.key "with", .key "github-token"] = some (.str token)

theorem reads_script {ctx : Context} {s : Script} {step : Value} (h : script ctx s = .ok step)
    {token : String} : Reads step token ↔ s.token = token ∧ token.isEmpty = false := by
  rw [Reads, token_script h]
  split
  · next hempty =>
    constructor
    · rintro ⟨⟩
    · rintro ⟨rfl, hsome⟩
      rw [hempty] at hsome
      cases hsome
  · next hsome =>
    rw [Bool.not_eq_true] at hsome
    constructor
    · rintro ⟨⟩
      exact ⟨rfl, hsome⟩
    · rintro ⟨rfl, -⟩
      rfl

def ReadsApp (step : Value) : Prop := Reads step SafeOutputs.appToken

end Step

open Step (ReadsApp)

/-- The steps that a workflow brings itself: those around the agent's run, those of the agent
that is made of steps, and those before safe outputs are carried out. -/
def Workflow.ownSteps (w : Workflow) : List Value :=
  w.steps ++ (w.engine.steps.filterMap Value.entries?).map (Engine.customStep w) ++ w.postSteps ++
    w.safeOutputs.toList.flatMap (·.steps)

namespace Checkout

theorem get?_textInput {key other : String} (h : key ≠ other) (text : String) :
    get? (Target.textInput key text) other = none := get?_textEntry h text

theorem get?_howInputs (t : Target) : get? t.howInputs "github-token" = none := by
  simp only [Target.howInputs, get?_append, Option.or_eq_none_iff]
  refine ⟨⟨⟨⟨⟨get?_textInput (by decide) _, get?_textInput (by decide) _⟩, ?depth⟩, ?patterns⟩,
    get?_textInput (by decide) _⟩, ?lfs⟩
  case depth => split <;> rfl
  case patterns => split <;> rfl
  case lfs => split <;> rfl

namespace Plan

theorem get?_defaultInputs (plan : Plan) (trial : Option String) :
    get? (plan.defaultInputs trial) "github-token" = none := by
  unfold defaultInputs
  split
  · rw [get?_append, get?_textInput (by decide)]
    rfl
  · split
    · exact get?_howInputs _
    · rfl

theorem get?_additionalInputs (t : Target) :
    get? (additionalInputs t) "github-token" = none := by
  rw [additionalInputs, get?_append, get?_append, get?_howInputs,
    get?_textInput (by decide), get?_textInput (by decide)]
  rfl

theorem token_step {inputs : Table Value} (h : inputs.get? "github-token" = none)
    (reference name : String) :
    (step reference name inputs).at? [.key "with", .key "github-token"] = none :=
  (Value.at?_obj _ _ _).trans ((Value.at?_obj_key _ _).trans h)

end Plan

end Checkout

/-! ## Builders -/

section

variable {w : Workflow} {ctx : Context} {q : PinResolver} {own : Value → Prop} {step : Value}

/-- The texts that the two resolvers give for an action. -/
def Pinned (ctx : Context) (q : PinResolver) (old new : String) : Prop :=
  ∃ repo, ctx.pin repo = .ok old ∧ q repo = .ok new

/-- Two steps that are built with two resolvers: they are the same, or differ in the action they
use, and only steps of a kind are given the app's token. -/
inductive Step.Built (ctx : Context) (q : PinResolver) (own : Value → Prop) : Value → Value → Prop
  | same {step : Value} (h : ReadsApp step → own step) : Built ctx q own step step
  | uses {old new : String} (hpin : Pinned ctx q old new) {es es' : Entries}
      (hes : OneUse old new es es') (h : ReadsApp (.map es) → own (.map es)) :
      Built ctx q own (.map es) (.map es')

/-- What a builder of steps makes with the two resolvers. -/
abbrev Step.Rebuilt (ctx : Context) (q : PinResolver) (own : Value → Prop)
    (steps : Context → Outcome (List Value)) : Prop :=
  Lifts (Forall₂ (Step.Built ctx q own)) (steps ctx) (steps (ctx.repin q))

def Job.Built (ctx : Context) (q : PinResolver) (own : Value → Prop) (job job' : Job) : Prop :=
  job' = { job with steps := job'.steps } ∧ Forall₂ (Step.Built ctx q own) job.steps job'.steps

namespace Step.Built

theorem of_pinned {old new : String} {es es' : Entries} (h : Pinned ctx q old new)
    (hes : OneUse old new es es')
    (htoken : Value.at? (.map es) [.key "with", .key "github-token"] = none) :
    Step.Built ctx q own (.map es) (.map es') :=
  .uses h hes fun hreads => nomatch htoken.symm.trans hreads

theorem plain (h : step.at? [.key "with", .key "github-token"] = none) :
    Step.Built ctx q own step step :=
  .same fun hreads => nomatch h.symm.trans hreads

theorem repinned {step' : Value} (hctx : ctx.pin = resolvePin)
    (h : Step.Built ctx q own step step') : Step.Repinned q step step' := by
  cases h with
  | same => exact .same step
  | uses hpin hes =>
    obtain ⟨repo, hold, hnew⟩ := hpin
    obtain ⟨pin, hpin, rfl, rfl⟩ := exists_pin (hctx ▸ hold)
    exact .uses hpin hnew hes

end Step.Built

theorem built_own {steps : List Value} (h : ∀ step ∈ steps, own step) :
    Forall₂ (Step.Built ctx q own) steps steps :=
  forall₂_same.mpr fun step hstep => .same fun _ => h step hstep

/-- A resolver that can take the place of the one of a context, and steps that may be given the
app's token, some that are brought among them. -/
structure Rebuilds (ctx : Context) (q : PinResolver) (brought : List Value) (own : Value → Prop) :
    Prop where
  pins : q.Extends ctx.pin
  own : ∀ step ∈ brought, own step

section Steps

variable {brought : List Value} (hq : Rebuilds ctx q brought own)
include hq

theorem lifts_pin (repo : String) :
    Lifts (Pinned ctx q) (ctx.pin repo) ((ctx.repin q).pin repo) := by
  intro old hold
  obtain ⟨new, hnew⟩ := hq.pins repo old hold
  exact ⟨new, hnew, repo, hold, hnew⟩

open Step (Built Rebuilt)

namespace Step

theorem lifts_setup : Rebuilt ctx q own setup := by
  have hmode : (ctx.repin q).mode = ctx.mode := rfl
  unfold Rebuilt setup
  rw [hmode]
  cases ctx.mode with
  | script =>
    refine (lifts_pin hq "actions/checkout").bind fun old new h => .ok ?_
    exact .cons (.of_pinned h (.there rfl .here) rfl) (.cons (.plain rfl) .nil)
  | release => exact .ok (.cons (.plain rfl) .nil)
  | dev => exact .ok (.cons (.plain rfl) .nil)

theorem lifts_script (s : Script) (hs : s.token ≠ SafeOutputs.appToken ∨ ∀ step, own step) :
    Lifts (Built ctx q own) (script ctx s) (script (ctx.repin q) s) := by
  have hscripts : (ctx.repin q).scripts = ctx.scripts := rfl
  intro step hstep
  have hown : ReadsApp step → own step :=
    fun hreads => hs.elim (absurd ((reads_script hstep).mp hreads).1) fun hown => hown step
  unfold script at hstep ⊢
  rw [hscripts]
  dsimp only at hstep ⊢
  by_cases hcustom : (ScriptRegistry.actionPath ctx.scripts s.handler).isEmpty
  · rw [if_pos hcustom, if_pos hcustom] at hstep
    rw [if_pos hcustom, if_pos hcustom]
    obtain ⟨old, hold, hstep⟩ := bind_eq_ok.mp hstep
    obtain ⟨new, hnew⟩ := hq.pins _ _ hold
    cases hstep
    refine ⟨_, bind_eq_ok.mpr ⟨new, hnew, rfl⟩, .uses ⟨_, hold, hnew⟩ ?_ hown⟩
    simp only [map_append]
    refine ((OneUse.here.append_left ?_).append_right _).append_right _
    simp only [forall_mem_append]
    exact ⟨⟨forall_mem_singleton.mpr rfl, fun e he => mem_textEntry he ▸ rfl⟩,
      fun e he => mem_textEntry he ▸ rfl⟩
  · rw [if_neg hcustom, if_neg hcustom] at hstep ⊢
    cases hstep
    exact ⟨_, rfl, .same hown⟩

theorem lifts_download (name artifact path : String) :
    Lifts (Built ctx q own) (download ctx name artifact path)
      (download (ctx.repin q) name artifact path) :=
  (lifts_pin hq "actions/download-artifact").bind fun _ _ h =>
    .ok (.of_pinned h (.there rfl (.there rfl .here)) rfl)

theorem lifts_upload (name artifact : String) (paths : List String)
    (ifNoFiles condition : String) :
    Lifts (Built ctx q own) (upload ctx name artifact paths ifNoFiles condition)
      (upload (ctx.repin q) name artifact paths ifNoFiles condition) := by
  refine (lifts_pin hq "actions/upload-artifact").bind fun old new h => ?_
  refine .bind_same (pathList paths) fun path => .ok ?_
  unfold textEntry
  split
  · exact .of_pinned h (.there rfl .here) rfl
  · exact .of_pinned h (.there rfl (.there rfl .here)) rfl

theorem lifts_agentOutput : Rebuilt ctx q own agentOutput :=
  (lifts_download hq _ _ _).bind fun _ _ h => .ok (.cons h (.cons (.plain rfl) .nil))

theorem lifts_appToken (app : GitHubApp) (id name : String) :
    Lifts (Built ctx q own) (appToken ctx app id name) (appToken (ctx.repin q) app id name) :=
  (lifts_pin hq "actions/create-github-app-token").bind fun _ _ h =>
    .ok (.of_pinned h (.there rfl (.there rfl .here)) rfl)

end Step

namespace Checkout.Plan

theorem lifts_defaultStep (plan : Plan) (trial : Option String) :
    Lifts (Built ctx q own) (plan.defaultStep ctx.pin trial)
      (plan.defaultStep (ctx.repin q).pin trial) :=
  (lifts_pin hq "actions/checkout").bind fun _ _ h =>
    .ok (.of_pinned h (.there rfl .here) (token_step (get?_defaultInputs plan trial) _ _))

theorem lifts_additionalSteps (plan : Plan) :
    Lifts (Forall₂ (Built ctx q own)) (plan.additionalSteps ctx.pin)
      (plan.additionalSteps (ctx.repin q).pin) :=
  .mapM (fun t => (lifts_pin hq "actions/checkout").bind fun _ _ h =>
    .ok (.of_pinned h (.there rfl .here) (token_step (get?_additionalInputs t) _ _))) _

end Checkout.Plan

namespace SafeOutputs

theorem lifts_patchSteps (s : SafeOutputs) : Rebuilt ctx q own s.patchSteps := by
  unfold Rebuilt patchSteps
  split
  · exact .ok .nil
  · refine (lifts_download hq _ _ _).bind fun _ _ hpatch => ?_
    refine (lifts_pin hq "actions/checkout").bind fun _ _ h => .ok ?_
    exact .cons hpatch (.cons (.of_pinned h (.there rfl .here) rfl) (.cons (.plain rfl) .nil))

theorem lifts_appSteps (s : SafeOutputs) : Rebuilt ctx q own s.appSteps := by
  unfold Rebuilt appSteps
  split
  · exact .ok .nil
  · exact (lifts_appToken hq _ _ _).bind fun _ _ h => .ok (.cons h .nil)

variable (hown : ∀ step, own step)
include hown

theorem lifts_jobSteps (s : SafeOutputs) (name id tracker : String) :
    Rebuilt ctx q own (s.jobSteps · name id tracker) := by
  refine (lifts_setup hq).bind fun _ _ hsetup => ?_
  refine (lifts_appSteps hq s).bind fun _ _ happ => ?_
  refine (lifts_agentOutput hq).bind fun _ _ houtput => ?_
  refine (lifts_patchSteps hq s).bind fun _ _ hpatch => ?_
  refine .bind_same s.processingEnvironment fun environment => ?_
  refine (lifts_script hq _ (.inr hown)).bind fun _ _ hprocess => .ok ?_
  exact rel_append (rel_append (rel_append (rel_append
    (rel_append hsetup happ) houtput) hpatch) (built_own fun step _ => hown step))
    (.cons hprocess .nil)

theorem lifts_job? (s : SafeOutputs) (name id tracker : String) :
    Lifts (Option.Rel (Job.Built ctx q own)) (s.job? ctx name id tracker)
      (s.job? (ctx.repin q) name id tracker) := by
  unfold job?
  split
  · exact .ok .none
  · exact (lifts_jobSteps hq hown s name id tracker).bind fun _ _ h => .ok (.some ⟨rfl, h⟩)

theorem lifts_reportJob (s : SafeOutputs) (o : SafeOutput.Output) (name id tracker : String) :
    Lifts (Job.Built ctx q own) (s.reportJob ctx o name id tracker)
      (s.reportJob (ctx.repin q) o name id tracker) := by
  refine (lifts_setup hq).bind fun _ _ hsetup => ?_
  refine (lifts_agentOutput hq).bind fun _ _ houtput => ?_
  refine (lifts_script hq _ (.inr hown)).bind fun _ _ hreport => .ok ⟨rfl, ?_⟩
  exact rel_append (rel_append hsetup houtput) (.cons hreport .nil)

end SafeOutputs

end Steps

variable (hq : Rebuilds ctx q w.ownSteps own)
include hq

namespace Memory

theorem lifts_cacheSteps : Rebuilt ctx q own (cacheSteps w) := by
  have hsteps : ∀ c : CacheMemory, Rebuilt ctx q own c.steps := fun c =>
    (lifts_pin hq _).bind fun _ _ h =>
      .ok (.cons (.plain rfl) (.cons (.of_pinned h (.there rfl .here) rfl) .nil))
  refine (Lifts.mapM hsteps _).bind fun groups groups' h => .ok ?_
  induction h with
  | nil => exact .nil
  | cons hgroup _ ih => exact rel_append hgroup ih

theorem lifts_cacheUploads : Rebuilt ctx q own (cacheUploads w) := by
  refine Lifts.mapM (fun c => ?_) _
  unfold upload
  rw [bind_assoc, bind_assoc]
  exact (lifts_pin hq _).bind fun _ _ h => .ok (.of_pinned h (.there rfl (.there rfl .here)) rfl)

theorem lifts_branchUploads : Rebuilt ctx q own (branchUploads w) := by
  unfold Rebuilt branchUploads
  split
  · exact .ok .nil
  · exact (lifts_upload hq _ _ _ _ _).bind fun _ _ h => .ok (.cons h .nil)

theorem lifts_pushJob (m : RepoMemory) :
    Lifts (Job.Built ctx q own) (pushJob m ctx) (pushJob m (ctx.repin q)) := by
  refine (lifts_setup hq).bind fun setup setup' hsetup => ?_
  refine (lifts_pin hq "actions/checkout").bind fun old new h => ?_
  refine (lifts_download hq _ _ _).bind fun fetch fetch' hfetch => ?_
  refine (lifts_script hq _ (.inl (by dsimp only; decide))).bind fun push push' hpush =>
    .ok ⟨rfl, ?_⟩
  exact rel_append hsetup
    (.cons (.of_pinned h (.there rfl .here) rfl) (.cons hfetch (.cons hpush .nil)))

theorem lifts_pushJob? :
    Lifts (Option.Rel (Job.Built ctx q own)) (pushJob? w ctx) (pushJob? w (ctx.repin q)) := by
  unfold pushJob?
  split
  · exact .ok .none
  · exact (lifts_pushJob hq _).bind fun _ _ h => .ok (.some h)

end Memory

namespace Engine

omit hq in
theorem built_scriptStep (name id script : String) {extra : Table Value}
    (hextra : extra.get? "with" = none) (environment : Table String) :
    Built ctx q own (scriptStep name id extra script environment)
      (scriptStep name id extra script environment) := by
  refine .plain ?_
  have hentry : get? (Mcp.environmentEntry (sorted environment)) "with" = none := by
    unfold Mcp.environmentEntry
    split <;> rfl
  rw [scriptStep, Value.at?_obj, get?_append, get?_append, get?_append, hentry,
    hextra]
  rfl

theorem lifts_installSteps (e : Engine) : Rebuilt ctx q own (e.installSteps w) := by
  have hpackage : Rebuilt ctx q own (e.packageSteps w) := by
    unfold Rebuilt packageSteps
    dsimp only
    split
    · exact .ok .nil
    · exact .ok (.cons (.plain rfl) .nil)
    · exact (lifts_pin hq _).bind fun _ _ h =>
        .ok (.cons (.of_pinned h (.there rfl .here) rfl) (.cons (.plain rfl) .nil))
  have hfirewall : Forall₂ (Built ctx q own)
      (if e.usesFirewall w then [Network.installStep (firewallVersion w ctx)] else [])
      (if e.usesFirewall w then [Network.installStep (firewallVersion w (ctx.repin q))] else []) := by
    split
    · exact .cons (.plain rfl) .nil
    · exact .nil
  unfold Rebuilt installSteps
  dsimp only
  split
  · exact hpackage.bind fun _ _ h => .ok (rel_append h hfirewall)
  · exact .ok hfirewall

theorem lifts_serverSteps (e : Engine) : Rebuilt ctx q own (e.serverSteps w) := by
  have htoken : Rebuilt ctx q own (Mcp.tokenSteps w) := by
    unfold Rebuilt Mcp.tokenSteps
    split
    · exact .ok .nil
    · exact (lifts_appToken hq _ _ _).bind fun _ _ h => .ok (.cons h .nil)
  have hinputs : Rebuilt ctx q own fun _ => Mcp.safeInputSteps w := by
    unfold Rebuilt Mcp.safeInputSteps
    split
    · exact .ok .nil
    · exact .bind_same _ fun _ => .ok (.cons (.plain rfl) .nil)
  refine htoken.bind fun _ _ htoken => hinputs.bind fun _ _ hinputs => ?_
  refine .bind_same (Mcp.configText w _ _ _) fun text => .ok ?_
  exact rel_append (rel_append htoken hinputs) (.cons (.plain rfl) .nil)

theorem lifts_runSteps (e : Engine) :
    Lifts (fun built built' => Forall₂ (Built ctx q own) built.1 built'.1 ∧ built.2 = built'.2)
      (e.runSteps w ctx) (e.runSteps w (ctx.repin q)) := by
  have hlogs : Rebuilt ctx q own (Network.logSteps · w.name) :=
    (lifts_pin hq _).bind fun _ _ h => .ok
      (.cons (.of_pinned h (.there rfl (.there rfl (.there rfl .here))) rfl)
        (.cons (.plain rfl) .nil))
  unfold runSteps
  split
  · refine .ok ⟨built_own fun step hstep => hq.own step ?_, rfl⟩
    exact mem_append_left _ (mem_append_left _ (mem_append_right _ hstep))
  · dsimp only
    split
    · exact hlogs.bind fun _ _ h => .ok ⟨.cons (built_scriptStep _ _ _ rfl _) h, rfl⟩
    · exact .ok ⟨.cons (built_scriptStep _ _ _ rfl _) .nil, rfl⟩

end Engine

theorem Prompt.lifts_steps : Rebuilt ctx q own (Prompt.steps w) := by
  -- A step that runs a script is there in both lists of steps or in none.
  have hscript : ∀ {c : Prop} [Decidable c] {s : Step.Script}
      {f g : List Value → Outcome (List Value)}, s.token = "" →
      (∀ steps steps', Forall₂ (Built ctx q own) steps steps' →
        Lifts (Forall₂ (Built ctx q own)) (f steps) (g steps')) →
      Lifts (Forall₂ (Built ctx q own))
        (if c then (.ok [] : Outcome (List Value)) >>= f
          else script ctx s >>= fun step => (.ok [step] : Outcome (List Value)) >>= f)
        (if c then (.ok [] : Outcome (List Value)) >>= g
          else script (ctx.repin q) s >>= fun step =>
            (.ok [step] : Outcome (List Value)) >>= g) := by
    intro c _ s f g hs hfg
    split
    · exact hfg [] [] .nil
    · exact (lifts_script hq s (.inl (by rw [hs]; decide))).bind fun step step' h =>
        hfg _ _ (.cons h .nil)
  unfold Rebuilt Prompt.steps
  refine hscript rfl fun _ _ hsubstitute => hscript rfl fun _ _ hinterpolate => .ok ?_
  exact rel_append (rel_append (rel_append (.cons (.plain rfl) .nil) hsubstitute)
    hinterpolate) (.cons (.plain rfl) .nil)

namespace Workflow

theorem lifts_activationJob (engine : Engine) :
    Lifts (Job.Built ctx q own) (w.activationJob engine ctx)
      (w.activationJob engine (ctx.repin q)) := by
  have hsecret : Forall₂ (Built ctx q own) engine.secretStep?.toList engine.secretStep?.toList := by
    unfold Engine.secretStep?
    dsimp only
    split
    · exact .nil
    · exact .cons (Engine.built_scriptStep _ _ _ rfl _) .nil
  refine (lifts_setup hq).bind fun _ _ hsetup => ?_
  refine (lifts_pin hq "actions/checkout").bind fun _ _ h => ?_
  refine (lifts_script hq _ (.inl (by dsimp only; decide))).bind fun _ _ htimestamps => ?_
  refine (lifts_script hq _ (.inl (by dsimp only; decide))).bind fun _ _ hinfo => ?_
  refine (lifts_upload hq _ _ _ _ _).bind fun _ _ hupload => .ok ⟨rfl, ?_⟩
  exact rel_append (rel_append (rel_append hsetup
    (.cons (.of_pinned h (.there rfl .here) rfl) (.cons htimestamps (.cons hinfo .nil))))
    hsecret) (.cons hupload .nil)

theorem lifts_collectSteps (engine : Engine) : Rebuilt ctx q own (w.collectSteps engine) := by
  unfold Rebuilt collectSteps
  split
  · exact .ok .nil
  · refine (lifts_upload hq _ _ _ _ _).bind fun _ _ hraw => ?_
    refine (lifts_script hq _ (.inl (by dsimp only; decide))).bind fun _ _ hingest => ?_
    refine (lifts_upload hq _ _ _ _ _).bind fun _ _ hsanitized => ?_
    dsimp only
    split
    · exact (lifts_upload hq _ _ _ _ _).bind fun _ _ hpatch =>
        .ok (.cons hraw (.cons hingest (.cons hsanitized (.cons hpatch .nil))))
    · exact .ok (.cons hraw (.cons hingest (.cons hsanitized .nil)))

theorem lifts_prepareSteps : Rebuilt ctx q own w.prepareSteps := by
  have hclone : Forall₂ (Built ctx q own) (Memory.cloneSteps w) (Memory.cloneSteps w) := by
    unfold Memory.cloneSteps
    cases w.tools.repoMemory with
    | none => exact .nil
    | some m => exact .cons (.plain rfl) .nil
  have hsteps : Forall₂ (Built ctx q own) w.steps w.steps := built_own fun step hstep =>
    hq.own step (mem_append_left _ (mem_append_left _ (mem_append_left _ hstep)))
  refine (lifts_setup hq).bind fun _ _ hsetup => ?_
  refine (Checkout.Plan.lifts_defaultStep hq _ _).bind fun _ _ hcheckout => ?_
  refine (Checkout.Plan.lifts_additionalSteps hq _).bind fun _ _ hadditional => ?_
  refine (lifts_download hq _ _ _).bind fun _ _ hfetch => ?_
  refine (Memory.lifts_cacheSteps hq).bind fun _ _ hcaches => .ok ?_
  exact rel_append (rel_append (rel_append (rel_append (rel_append
    (rel_append (rel_append hsetup (.cons hcheckout .nil)) hadditional)
    (.cons (.plain rfl) (.cons hfetch .nil))) hcaches) hclone)
    (.cons (.plain rfl) .nil)) hsteps

theorem lifts_agentJob (engine : Engine) :
    Lifts (fun built built' => Job.Built ctx q own built.1 built'.1 ∧ built.2 = built'.2)
      (w.agentJob engine ctx) (w.agentJob engine (ctx.repin q)) := by
  have hlimits : Rebuilt ctx q own fun _ => w.limitSteps := by
    unfold Rebuilt limitSteps
    split
    · exact .ok .nil
    · exact .bind_same _ fun _ => .bind_same _ fun _ => .ok (.cons (.plain rfl) .nil)
  have hpost : Forall₂ (Built ctx q own) w.postSteps w.postSteps := built_own fun step hstep =>
    hq.own step (mem_append_left _ (mem_append_right _ hstep))
  refine (lifts_prepareSteps hq).bind fun _ _ hprepare => ?_
  refine (engine.lifts_installSteps hq).bind fun _ _ hinstall => ?_
  refine hlimits.bind fun _ _ hlimits => ?_
  refine (engine.lifts_serverSteps hq).bind fun _ _ hservers => ?_
  refine (Prompt.lifts_steps hq).bind fun _ _ hprompt => ?_
  refine (engine.lifts_runSteps hq).bind ?_
  rintro ⟨run, warnings⟩ ⟨run', _⟩ ⟨hrun, rfl⟩
  refine (lifts_collectSteps hq engine).bind fun _ _ hcollect => ?_
  refine (lifts_upload hq _ _ _ _ _).bind fun _ _ hlogs => ?_
  refine (Memory.lifts_cacheUploads hq).bind fun _ _ hcaches => ?_
  refine (Memory.lifts_branchUploads hq).bind fun _ _ hbranch => .ok ⟨⟨rfl, ?_⟩, rfl⟩
  exact rel_append (rel_append (rel_append (rel_append (rel_append
    (rel_append (rel_append (rel_append (rel_append (rel_append
    hprepare hinstall) hlimits) hservers) hprompt) hrun) hpost) hcollect)
    (.cons hlogs .nil)) hcaches) hbranch

theorem lifts_conclusionJob? (needs : List String) :
    Lifts (Option.Rel (Job.Built ctx q own)) (w.conclusionJob? ctx needs)
      (w.conclusionJob? (ctx.repin q) needs) := by
  have hnoop : ∀ (s : SafeOutputs) (identity : Table String),
      Rebuilt ctx q own (noopSteps s · identity) := by
    intro s identity
    unfold Rebuilt noopSteps
    split
    · exact .ok .nil
    · exact (lifts_script hq _ (.inl (by dsimp only; decide))).bind fun _ _ h =>
        .ok (.cons h .nil)
  unfold conclusionJob?
  split
  · exact .ok .none
  · next s _ =>
    refine (lifts_setup hq).bind fun _ _ hsetup => ?_
    refine (lifts_agentOutput hq).bind fun _ _ houtput => ?_
    refine (hnoop s _).bind fun _ _ hnoop => ?_
    refine .bind_same s.messageVariables fun messages => ?_
    refine (lifts_script hq _ (.inl (by dsimp only; decide))).bind fun _ _ hfailure =>
      .ok (.some ⟨rfl, ?_⟩)
    exact rel_append (rel_append (rel_append hsetup houtput) hnoop)
      (.cons hfailure .nil)

theorem lifts_outputJobs (hown : ∀ step, own step) :
    Lifts (Forall₂ (Job.Built ctx q own)) (w.outputJobs ctx) (w.outputJobs (ctx.repin q)) := by
  unfold outputJobs
  split
  · exact .ok .nil
  · next s _ =>
    refine (s.lifts_job? hq hown _ _ _).bind fun job job' hjob => ?_
    refine (Lifts.mapM (fun o => s.lifts_reportJob hq hown o _ _ _) _).bind
      fun _ _ hreports => .ok (rel_append ?_ hreports)
    cases hjob with
    | none => exact .nil
    | some h => exact .cons h .nil

end Workflow

end

/-! ## Jobs -/

theorem Job.keepsOutline_of_steps {R : Job → Job → Prop}
    (h : ∀ job job', R job job' → job' = { job with steps := job'.steps }) : KeepsOutline R := by
  intro job job' hjob
  rw [h job job' hjob]
  rfl

namespace Workflow

variable {ctx : Context} {q : PinResolver} {w : Workflow} {engine : Engine}

/-- **The jobs of a workflow with another resolver** differ in nothing but actions. -/
theorem lifts_repin (hctx : ctx.pin = resolvePin) (hq : q.IsComplete) (w : Workflow)
    (engine : Engine) :
    Lifts (fun built built' =>
        JobGraph.Alike (Job.Repinned q) built.1 built'.1 ∧ built.2 = built'.2)
      (w.jobs engine ctx) (w.jobs engine (ctx.repin q)) := by
  have hbuilt : Rebuilds ctx q w.ownSteps fun _ => True := ⟨hctx ▸ extends_of_isComplete hq, fun _ _ => trivial⟩
  intro built h
  obtain ⟨built', h', halike, hwarnings⟩ := lifts_jobs
    (Job.keepsOutline_of_steps fun _ _ h => h.1)
    (lifts_activationJob hbuilt engine) (lifts_agentJob hbuilt engine)
    (lifts_outputJobs hbuilt fun _ => trivial) (Memory.lifts_pushJob? hbuilt)
    (lifts_conclusionJob? hbuilt) built h
  exact ⟨built', h', halike.imp fun _ _ h => ⟨h.1, h.2.imp fun _ _ h => h.repinned hctx⟩,
    hwarnings⟩

theorem pinned_of_activationJob {job : Job} (hctx : ctx.pin = resolvePin)
    (h : w.activationJob engine ctx = .ok job) :
    ∃ es, Value.map es ∈ job.steps ∧ ∃ pin ∈ ActionPin.known,
      Entries.get? es "uses" = some (.str pin.reference) := by
  simp only [activationJob, bind_eq_ok] at h
  obtain ⟨setup, -, checkout, hcheckout, timestamps, -, info, -, upload, -, h⟩ := h
  cases h
  obtain ⟨pin, hpin, -, rfl⟩ := exists_pin (hctx ▸ hcheckout)
  exact ⟨_, mem_append_left _ (mem_append_left _ (mem_append_right _
    mem_cons_self)), pin, hpin, rfl⟩

theorem exists_activationJob {graph : JobGraph} {warnings : List Warning}
    (h : w.jobs engine ctx = .ok (graph, warnings)) :
    ∃ job ∈ graph.jobs, w.activationJob engine ctx = .ok job := by
  obtain ⟨activation, agent, outputs, push, needs, conclusion, hactivation, -, -, -, -, hjobs⟩ :=
    jobs_eq_ok h
  exact ⟨activation, by simp [hjobs], hactivation⟩

end Workflow

/-! ## Values -/

section Finite

open Value

theorem allEntriesFinite_append (es es' : Entries) :
    allEntriesFinite (es ++ es') = (allEntriesFinite es && allEntriesFinite es') := by
  induction es with
  | nil => rfl
  | cons e es ih => simp only [cons_append, allEntriesFinite, ih, Bool.and_assoc]

variable {q : PinResolver}

theorem Step.Repinned.isFinite_eq {step step' : Value} (h : Step.Repinned q step step') :
    step'.isFinite = step.isFinite := by
  cases h with
  | same => rfl
  | uses _ _ h =>
    rw [isFinite, isFinite]
    induction h with
    | here => rfl
    | there _ _ ih => rw [allEntriesFinite, allEntriesFinite, ih]

theorem Job.Repinned.isFinite_eq {job job' : Job} (h : Job.Repinned q job job') :
    job'.toValue.isFinite = job.toValue.isFinite := by
  have hfinite : ∀ {steps steps' : List Value}, Forall₂ (Step.Repinned q) steps steps' →
      allFinite steps' = allFinite steps := by
    intro steps steps' h
    induction h with
    | nil => rfl
    | cons hstep _ ih => rw [allFinite, allFinite, ih, hstep.isFinite_eq]
  obtain ⟨heq, hsteps⟩ := h
  generalize job'.steps = steps' at heq hsteps
  subst heq
  simp only [Job.toValue, obj, map_append, isFinite, allEntriesFinite_append]
  simp only [map_cons, map_nil, allEntriesFinite, entryFinite, isFinite, hfinite hsteps]

/-- Written workflows that differ in actions alone are both finite or both not. -/
theorem Workflow.isFinite_written (head : List (String × Value)) {jobs jobs' : List Job}
    (h : Forall₂ (Job.Repinned q) jobs jobs') :
    (written head jobs').isFinite = (written head jobs).isFinite := by
  have hfinite : allEntriesFinite (jobs'.map fun job => (.str job.name, job.toValue)) =
      allEntriesFinite (jobs.map fun job => (.str job.name, job.toValue)) := by
    induction h with
    | nil => rfl
    | cons hjob _ ih =>
      rw [map_cons, map_cons, allEntriesFinite, allEntriesFinite, ih, entryFinite,
        entryFinite, hjob.isFinite_eq]
  simp only [Workflow.written, obj, map_append, isFinite, allEntriesFinite_append]
  simp only [map_cons, map_nil, map_map, Function.comp_def, allEntriesFinite,
    entryFinite, isFinite, hfinite]

end Finite

end FlowLock
