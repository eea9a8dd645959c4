import FlowLock.Proofs.Job.Condition
import FlowLock.Proofs.Outcome
import FlowLock.Workflow.Jobs

/-!
# What the builders of jobs give

Each job of a workflow has a builder of its own.  Whatever steps a builder puts together,
the name of its job, the jobs it waits for, the condition it runs under and its permissions
are told here once; everything about the jobs of a workflow follows from these.
-/

namespace FlowLock

open Outcome SafeOutput

/-- What a job is to the other jobs. -/
structure Job.Outline where
  name : String
  needs : List String
  condition : String
  permissions : Permissions

def Job.outline (job : Job) : Job.Outline :=
  { name := job.name
    needs := job.needs
    condition := job.condition
    permissions := job.permissions }

@[simp] theorem Job.name_outline (job : Job) : job.outline.name = job.name := rfl

@[simp] theorem Job.needs_outline (job : Job) : job.outline.needs = job.needs := rfl

theorem Job.map_name_outline (jobs : List Job) :
    (jobs.map (·.outline)).map (·.name) = jobs.map (·.name) := by
  simp [Function.comp_def]

namespace Workflow

def activationOutline (w : Workflow) : Job.Outline :=
  { name := "activation"
    needs := []
    condition := w.condition
    permissions := .ofGrants [(.contents, .read)] }

def agentOutline (w : Workflow) : Job.Outline :=
  { name := "agent"
    needs := ["activation"]
    condition := ""
    permissions := w.agentPermissions }

def processingOutline (s : SafeOutputs) : Job.Outline :=
  { name := "safe_outputs"
    needs := ["activation", "agent"]
    condition := s.jobCondition
    permissions := s.jobPermissions }

def reportOutline (o : Output) : Job.Outline :=
  { name := o.kind.handlerKey
    needs := ["agent"]
    condition := "(!cancelled()) && " ++ SafeOutputs.asksFor o.kind
    permissions := o.permissions }

def pushOutline : Job.Outline :=
  { name := "push_repo_memory"
    needs := ["agent"]
    condition := "always() && needs.agent.result == 'success'"
    permissions := .ofGrants [(.contents, .write)] }

def conclusionOutline (w : Workflow) (needs : List String) : Job.Outline :=
  { name := "conclusion"
    needs
    condition := "(always()) && (needs.agent.result != 'skipped')"
    permissions := w.conclusionPermissions }

variable {w : Workflow} {engine : Engine} {ctx : Context} {job : Job} {needs : List String}

theorem outline_activationJob (h : w.activationJob engine ctx = .ok job) :
    job.outline = w.activationOutline := by
  simp only [activationJob, bind_eq_ok] at h
  obtain ⟨setup, -, checkout, -, timestamps, -, info, -, upload, -, h⟩ := h
  cases h
  rfl

theorem outline_agentJob {warnings : List Warning}
    (h : w.agentJob engine ctx = .ok (job, warnings)) :
    job.outline = w.agentOutline := by
  simp only [agentJob, bind_eq_ok] at h
  obtain ⟨prepare, -, install, -, limits, -, servers, -, prompt, -, ⟨run, found⟩, -, collect, -,
    logs, -, caches, -, branch, -, h⟩ := h
  cases h
  rfl

theorem conclusionJob?_eq_ok {found : Option Job} (h : w.conclusionJob? ctx needs = .ok found) :
    found.map (·.outline) = w.configuredOutputs?.map fun _ => w.conclusionOutline needs := by
  unfold conclusionJob? at h
  split at h
  · next hnone =>
    cases h
    rw [hnone]
    rfl
  · next s hsome =>
    simp only [bind_eq_ok] at h
    obtain ⟨setup, -, output, -, noop, -, messages, -, failure, -, h⟩ := h
    cases h
    rw [hsome]
    rfl

/-- Whether the concluding job can be built does not depend on what it waits for. -/
theorem exists_conclusionJob? {found : Option Job} (h : w.conclusionJob? ctx needs = .ok found)
    (others : List String) : ∃ found, w.conclusionJob? ctx others = .ok found := by
  unfold conclusionJob? at h ⊢
  split at h
  · exact ⟨none, by simp [*]⟩
  · next s hsome =>
    simp only [bind_eq_ok] at h
    obtain ⟨setup, hsetup, output, houtput, noop, hnoop, messages, hmessages, failure, hfailure, h⟩
      := h
    simp [hsetup, houtput, hnoop, hmessages, hfailure]

end Workflow

namespace SafeOutputs

variable {s : SafeOutputs} {ctx : Context} {name id tracker : String}

theorem job?_eq_ok {found : Option Job} (h : s.job? ctx name id tracker = .ok found) :
    found.map (·.outline) =
      if s.handled.isEmpty then none else some (Workflow.processingOutline s) := by
  unfold job? at h
  split at h
  · next hempty =>
    cases h
    rw [if_pos hempty]
    rfl
  · next hempty =>
    obtain ⟨steps, -, h⟩ := bind_eq_ok.mp h
    cases h
    rw [if_neg hempty]
    rfl

theorem outline_reportJob {o : Output} {job : Job}
    (h : s.reportJob ctx o name id tracker = .ok job) :
    job.outline = Workflow.reportOutline o := by
  obtain ⟨setup, -, h⟩ := bind_eq_ok.mp h
  obtain ⟨output, -, h⟩ := bind_eq_ok.mp h
  obtain ⟨report, -, h⟩ := bind_eq_ok.mp h
  cases h
  rfl

end SafeOutputs

theorem Prompt.exists_steps (w : Workflow) {ctx : Context}
    (h : ∀ s, ∃ step, Step.script ctx s = .ok step) : ∃ steps, Prompt.steps w ctx = .ok steps := by
  choose step hstep using h
  simp only [Prompt.steps, hstep, ok_bind]
  split <;> split <;> exact ⟨_, rfl⟩

namespace Memory

theorem pushJob?_eq_ok {w : Workflow} {ctx : Context} {found : Option Job}
    (h : pushJob? w ctx = .ok found) :
    found.map (·.outline) = w.tools.repoMemory.map fun _ => Workflow.pushOutline := by
  unfold pushJob? at h
  split at h
  · next hnone =>
    cases h
    rw [hnone]
    rfl
  · next m hsome =>
    obtain ⟨job, hjob, h⟩ := bind_eq_ok.mp h
    simp only [pushJob, bind_eq_ok] at hjob
    obtain ⟨setup, -, checkout, -, fetch, -, push, -, hjob⟩ := hjob
    cases hjob
    cases h
    rw [hsome]
    rfl

end Memory

end FlowLock
