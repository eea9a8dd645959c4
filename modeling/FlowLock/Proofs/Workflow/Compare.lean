import FlowLock.Proofs.Compile.Render

/-!
# Jobs side by side

Two workflows, or one workflow in two contexts, can have jobs that are related one by one.
Where related jobs are the same to the other jobs, they are put together in the same way: if
the first jobs make a graph, so do the second ones, and the two graphs are related job by
job.
-/

namespace FlowLock

open Outcome List

def Job.KeepsOutline (R : Job → Job → Prop) : Prop :=
  ∀ job job', R job job' → job'.outline = job.outline

namespace JobGraph

variable {R : Job → Job → Prop} {g g' : JobGraph} {jobs jobs' : List Job}

def Alike (R : Job → Job → Prop) (g g' : JobGraph) : Prop := Forall₂ R g.jobs g'.jobs

theorem map_eq_of_outline {α : Type} (f : Job.Outline → α) (hR : Job.KeepsOutline R)
    (h : Forall₂ R jobs jobs') :
    jobs'.map (fun job => f job.outline) = jobs.map fun job => f job.outline :=
  map_eq_of_forall₂ (fun _ _ hjob => congrArg f (hR _ _ hjob)) h

theorem Alike.names_eq (hR : Job.KeepsOutline R) (h : Alike R g g') : g'.names = g.names :=
  map_eq_of_outline (·.name) hR h

theorem Alike.permissions_eq (hR : Job.KeepsOutline R) (h : Alike R g g') :
    g'.permissions = g.permissions :=
  congrArg Permissions.joinAll (map_eq_of_outline (·.permissions) hR h)

theorem Alike.validate_eq (hR : Job.KeepsOutline R) (h : Alike R g g') :
    g'.validate = g.validate := by
  have hfaults : ∀ (all before : List String) {jobs jobs' : List Job},
      Forall₂ R jobs jobs' → faultsFrom all before jobs' = faultsFrom all before jobs := by
    intro all before jobs jobs' hjobs
    induction hjobs generalizing before with
    | nil => rfl
    | cons hjob _ ih =>
      have hname := congrArg Job.Outline.name (hR _ _ hjob)
      have hneeds := congrArg Job.Outline.needs (hR _ _ hjob)
      rw [Job.name_outline, Job.name_outline] at hname
      rw [Job.needs_outline, Job.needs_outline] at hneeds
      rw [faultsFrom, faultsFrom, ih, hname, hneeds]
  rw [validate, validate, faults, faults, hfaults _ _ h, h.names_eq hR]

theorem lifts_add (hR : Job.KeepsOutline R) {job job' : Job} (hjob : R job job')
    (h : Alike R g g') : Lifts (Alike R) (g.add job) (g'.add job') := by
  have hname : job'.name = job.name := congrArg Job.Outline.name (hR _ _ hjob)
  unfold add
  rw [h.names_eq hR, hname]
  split
  · exact .error
  · exact .ok (rel_append h (.cons hjob .nil))

theorem lifts_addAll (hR : Job.KeepsOutline R) (hjobs : Forall₂ R jobs jobs')
    (h : Alike R g g') : Lifts (Alike R) (jobs.foldlM add g) (jobs'.foldlM add g') := by
  induction hjobs generalizing g g' with
  | nil => exact .ok h
  | cons hjob _ ih =>
    rw [foldlM_cons, foldlM_cons]
    exact (lifts_add hR hjob h).bind fun _ _ h => ih h

end JobGraph

namespace Workflow

variable {R : Job → Job → Prop} {w w' : Workflow} {engine : Engine} {ctx ctx' : Context}

private theorem forall₂_toList {job job' : Option Job} (h : Option.Rel R job job') :
    Forall₂ R job.toList job'.toList := by
  cases h with
  | none => exact .nil
  | some h => exact .cons h .nil

/-- **Builders that give related jobs give related graphs**, with the same warnings. -/
theorem lifts_jobs (hR : Job.KeepsOutline R)
    (hactivation : Lifts R (w.activationJob engine ctx) (w'.activationJob engine ctx'))
    (hagent : Lifts (fun built built' => R built.1 built'.1 ∧ built.2 = built'.2)
      (w.agentJob engine ctx) (w'.agentJob engine ctx'))
    (houtputs : Lifts (Forall₂ R) (w.outputJobs ctx) (w'.outputJobs ctx'))
    (hpush : Lifts (Option.Rel R) (Memory.pushJob? w ctx) (Memory.pushJob? w' ctx'))
    (hconclusion : ∀ needs, Lifts (Option.Rel R) (w.conclusionJob? ctx needs)
      (w'.conclusionJob? ctx' needs)) :
    Lifts (fun built built' => JobGraph.Alike R built.1 built'.1 ∧ built.2 = built'.2)
      (w.jobs engine ctx) (w'.jobs engine ctx') := by
  refine hactivation.bind fun _ _ hactivation => hagent.bind ?_
  rintro ⟨agent, warnings⟩ ⟨agent', _⟩ ⟨hagent, rfl⟩
  refine houtputs.bind fun _ _ houtputs => hpush.bind fun _ _ hpush => ?_
  have hjobs := rel_append (rel_append (.cons hactivation (.cons hagent .nil)) houtputs)
    (forall₂_toList hpush)
  have hempty : JobGraph.Alike R {} {} := .nil
  refine (JobGraph.lifts_addAll hR hjobs hempty).bind fun graph graph' hgraph => ?_
  rw [hgraph.names_eq hR]
  refine (hconclusion graph.names).bind fun _ _ hconclusion => ?_
  have hlast := JobGraph.lifts_addAll hR (forall₂_toList hconclusion) hgraph
  refine hlast.bind fun graph graph' hgraph => ?_
  rw [hgraph.validate_eq hR]
  exact .bind_same graph.validate fun _ => .ok ⟨hgraph, rfl⟩

end Workflow

end FlowLock
