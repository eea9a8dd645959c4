import FlowLock.Proofs.Permission
import FlowLock.Proofs.Workflow.Jobs

/-!
# Jobs have the least permissions

The processing job may do what its types take and nothing else, the concluding job may do
a part of that, and the workflow may do what its jobs may do together.
-/

namespace FlowLock

open Outcome SafeOutput Permissions Entries

/-! ## The processing job -/

namespace SafeOutputs

/-- The permissions that the types of a section take, reports apart, and the identity token
by its own rule. -/
structure HasLeastAccess (s : SafeOutputs) (p : Permissions) : Prop where
  highest : ∀ scope, scope ≠ .idToken →
    IsHighest ((s.outputs.filter fun o => !o.kind.isReport).map (·.permissions)) scope
      (p.get scope)
  idToken_refused : s.idToken = some "none" → p.get .idToken = none
  idToken_granted : s.idToken ≠ some "none" →
    (s.idToken = some "write" ∨ ∃ step ∈ s.steps, UsesIdentityAction step) →
    p.get .idToken = some .write
  idToken_absent : s.idToken ≠ some "write" → (¬∃ step ∈ s.steps, UsesIdentityAction step) →
    p.get .idToken = none

theorem get_idToken_output (o : Output) : o.permissions.get .idToken = none := by
  have hbundle : ∀ kind : Kind, .idToken ∉ kind.spec.bundle.map (·.1) := by
    intro kind
    cases kind <;> decide
  refine get_ofGrants_of_not_mem ?_
  unfold Output.grants
  split
  case h_6 => exact hbundle o.kind
  all_goals split <;> decide

theorem get_idToken_permissions (s : SafeOutputs) : s.permissions.get .idToken = none := by
  by_contra hsome
  obtain ⟨p, hp, heq⟩ :=
    (isHighest_joinAll (s.handled.map Output.permissions) .idToken).attained hsome
  obtain ⟨o, -, rfl⟩ := List.mem_map.mp hp
  exact hsome (heq.symm.trans (get_idToken_output o))

/-- **The processing job may do what its types take.** -/
theorem hasLeastAccess_jobPermissions (s : SafeOutputs) : s.HasLeastAccess s.jobPermissions where
  highest := by
    intro scope hscope
    rw [jobPermissions, get_withIdToken_of_ne _ _ _ hscope]
    exact isHighest_joinAll _ scope
  idToken_refused := by
    intro hnone
    simp [jobPermissions, get_idToken_withIdToken s.get_idToken_permissions, hnone]
  idToken_granted := by
    intro hnone hasked
    rw [← needsIdToken_iff] at hasked
    rw [jobPermissions, get_idToken_withIdToken s.get_idToken_permissions, if_pos ⟨hnone, hasked⟩]
  idToken_absent := by
    intro hwrite hsteps
    rw [← needsIdToken_iff] at hsteps
    simp [jobPermissions, get_idToken_withIdToken s.get_idToken_permissions, hwrite, hsteps]

end SafeOutputs

/-! ## The concluding job and the workflow -/

namespace Workflow

/-- What the concluding job may have of the permissions of safe outputs. -/
def conclusionLimit : Scope → Option Level
  | .contents => some .read
  | .discussions | .issues | .pullRequests => some .write
  | _ => none

def conclusionBase : Scope → Option Level
  | .contents => some .read
  | _ => none

theorem get_reading (scope : Scope) :
    (ofGrants [(.contents, .read)]).get scope = conclusionBase scope := by
  cases scope <;> rfl

theorem get_conclusionScopes (scope : Scope) :
    conclusionScopes.get scope = conclusionLimit scope := by
  cases scope <;> rfl

variable {w : Workflow}

/-- The concluding job reads contents, and has of the processing job's permissions what is
within its limit. -/
theorem strength_conclusionPermissions {s : SafeOutputs} (h : w.safeOutputs = some s)
    (scope : Scope) :
    strength (w.conclusionPermissions.get scope) = max (strength (conclusionBase scope))
        (min (strength (s.jobPermissions.get scope)) (strength (conclusionLimit scope))) := by
  simp [conclusionPermissions, h, get_reading, get_conclusionScopes]

variable {outline : Job.Outline}

theorem permissions_of_mem_outlines (h : outline ∈ w.outlines) :
    (outline.name = "safe_outputs" →
      ∃ s, w.safeOutputs = some s ∧ outline.permissions = s.jobPermissions) ∧
    (outline.name = "conclusion" → outline.permissions = w.conclusionPermissions) := by
  rcases cases_of_mem_outlines h with rfl | rfl | hlater | rfl
  · simp [activationOutline]
  · simp [agentOutline]
  · cases hlater with
    | @processing s hs => exact ⟨fun _ => ⟨s, hs, rfl⟩, by simp [processingOutline]⟩
    | report _ ho => rcases name_of_mem_reports ho with h | h <;> simp [h]
    | push => simp [pushOutline]
  · exact ⟨by simp [conclusionOutline], fun _ => rfl⟩

theorem permissions_of_compiled {engine : Engine} {ctx : Context} {value : Value}
    {warnings : List Warning} (h : w.compiled engine ctx = .ok (value, warnings)) :
    ∃ graph entries, w.jobs engine ctx = .ok (graph, warnings) ∧ value = .map entries ∧
      get? entries "permissions" = some graph.permissions.toValue := by
  obtain ⟨⟨graph, found⟩, hjobs, h⟩ := bind_eq_ok.mp h
  obtain ⟨rendered, -, h⟩ := bind_eq_ok.mp h
  cases h
  exact ⟨graph, _, hjobs, rfl, rfl⟩

/-- A workflow can be compiled when each of its jobs can be built. -/
theorem exists_compiled {engine : Engine} {ctx : Context} (h : BuildersSucceed w engine ctx) :
    ∃ compiled, w.compiled engine ctx = .ok compiled := by
  obtain ⟨graph, warnings, hjobs, -, horder⟩ := jobs_outline h
  have hvalid := (JobGraph.validate_eq_ok_iff graph).mpr horder
  simp [compiled, hjobs, JobGraph.toValue, hvalid]

/-- **Permissions are least.**

In the processing job every scope but the identity token has the highest level that a
configured type takes, reports apart, and is absent when none takes it; the identity token
follows its own rule.  The concluding job reads contents and has of these permissions what
is within its limit.  And a compiled workflow has, written under the name of each scope, the
highest level that one of its jobs has, and no other names. -/
theorem permissions_are_least (w : Workflow) (engine : Engine) (ctx : Context) :
    (∀ s : SafeOutputs, s.HasLeastAccess s.jobPermissions) ∧
    (∀ s, w.safeOutputs = some s → ∀ scope,
      strength (w.conclusionPermissions.get scope) =
        max (strength (conclusionBase scope))
          (min (strength (s.jobPermissions.get scope)) (strength (conclusionLimit scope)))) ∧
    ∀ value warnings, w.compiled engine ctx = .ok (value, warnings) →
      ∃ graph entries written, w.jobs engine ctx = .ok (graph, warnings) ∧
        (∀ job ∈ graph.jobs, job.name = "safe_outputs" →
          ∃ s, w.safeOutputs = some s ∧ job.permissions = s.jobPermissions) ∧
        (∀ job ∈ graph.jobs, job.name = "conclusion" →
          job.permissions = w.conclusionPermissions) ∧
        value = .map entries ∧ get? entries "permissions" = some (.map written) ∧
        (∀ scope, ∃ level, IsHighest (graph.jobs.map (·.permissions)) scope level ∧
          get? written scope.name = level.map fun l => .str l.name) ∧
        ∀ entry ∈ written, ∃ scope : Scope, entry.1 = .str scope.name := by
  refine ⟨SafeOutputs.hasLeastAccess_jobPermissions,
    fun s hs scope => strength_conclusionPermissions hs scope, ?_⟩
  intro value warnings h
  obtain ⟨graph, entries, hjobs, hvalue, hwritten⟩ := permissions_of_compiled h
  obtain ⟨graph', warnings', hjobs', houtlines, -⟩ := jobs_outline (buildersSucceed_of_jobs hjobs)
  obtain ⟨rfl, rfl⟩ : graph = graph' ∧ warnings = warnings' := by
    simpa using hjobs.symm.trans hjobs'
  have hmem : ∀ job ∈ graph.jobs, job.outline ∈ w.outlines := fun job hjob =>
    houtlines ▸ List.mem_map_of_mem hjob
  refine ⟨graph, entries, graph.permissions.entries, hjobs, ?_, ?_, hvalue, hwritten, ?_, ?_⟩
  · exact fun job hjob => (permissions_of_mem_outlines (hmem job hjob)).1
  · exact fun job hjob => (permissions_of_mem_outlines (hmem job hjob)).2
  · exact fun scope => ⟨_, isHighest_joinAll _ scope, get?_entries graph.permissions scope⟩
  · intro entry hentry
    obtain ⟨grant, -, rfl⟩ := List.mem_map.mp hentry
    exact ⟨grant.1, rfl⟩

/-- The sample can be compiled, and what is written for its contents is the highest level of
its jobs; its processing job writes issues. -/
theorem permissions_are_least_sample :
    ∃ value warnings, sampleWorkflow.compiled .copilot {} = .ok (value, warnings) ∧
      sampleOutputs.HasLeastAccess sampleOutputs.jobPermissions ∧
      sampleOutputs.jobPermissions.get .issues = some .write ∧
      ∃ graph entries written level, sampleWorkflow.jobs .copilot {} = .ok (graph, warnings) ∧
        value = .map entries ∧ get? entries "permissions" = some (.map written) ∧
        IsHighest (graph.jobs.map (·.permissions)) .contents level ∧
        get? written "contents" = level.map fun l => .str l.name := by
  obtain ⟨⟨value, warnings⟩, hcompiled⟩ := exists_compiled sampleWorkflow_builders
  obtain ⟨haccess, -, htop⟩ := permissions_are_least sampleWorkflow .copilot {}
  obtain ⟨graph, entries, written, hjobs, -, -, hvalue, hwritten, hscopes, -⟩ :=
    htop value warnings hcompiled
  obtain ⟨level, hhighest, hlevel⟩ := hscopes .contents
  exact ⟨value, warnings, hcompiled, haccess sampleOutputs, by decide, graph, entries,
    written, level, hjobs, hvalue, hwritten, hhighest, hlevel⟩

end Workflow

end FlowLock
