import FlowLock.Job.Graph
import FlowLock.Proofs.Outcome
import FlowLock.Proofs.Text.Distinct
import Mathlib.Logic.Relation

/-!
# Job graphs in order

Jobs are added one after the other under names that are not taken, and the finished graph
is valid exactly when it is in topological order: every job waits only for jobs before it.
Then no job waits for itself, and otherwise the check names what is out of order.
-/

namespace FlowLock.JobGraph

open List

/-- Every name that a job waits for is the name of a job that is written before it. -/
def IsTopological (g : JobGraph) : Prop :=
  ∀ before job after, g.jobs = before ++ job :: after →
    ∀ name ∈ job.needs, name ∈ before.map (·.name)

/-! ## Adding -/

theorem add_of_not_mem {g : JobGraph} {job : Job} (h : job.name ∉ g.names) :
    g.add job = .ok ⟨g.jobs ++ [job]⟩ := by
  simp [add, h]

/-- **Jobs with distinct names that are not taken can be added**, and come in their order. -/
theorem foldlM_add (g : JobGraph) (jobs : List Job)
    (h : (g.names ++ jobs.map (·.name)).Nodup) :
    jobs.foldlM add g = .ok ⟨g.jobs ++ jobs⟩ := by
  induction jobs generalizing g with
  | nil => simp [pure, Except.pure]
  | cons job jobs ih =>
    have hnew : job.name ∉ g.names := by
      rw [map_cons, nodup_append'] at h
      exact fun hmem => h.2.2 hmem mem_cons_self
    have hrest : ((⟨g.jobs ++ [job]⟩ : JobGraph).names ++ jobs.map (·.name)).Nodup := by
      simpa [names] using h
    rw [foldlM_cons, add_of_not_mem hnew, Outcome.ok_bind, ih _ hrest]
    simp

variable {g : JobGraph} {jobs : List Job}

theorem jobs_of_foldlM_add {g' : JobGraph} (h : jobs.foldlM add g = .ok g') :
    g'.jobs = g.jobs ++ jobs := by
  induction jobs generalizing g with
  | nil =>
    cases h
    rw [append_nil]
  | cons job jobs ih =>
    rw [foldlM_cons] at h
    obtain ⟨one, hadd, h⟩ := Outcome.bind_eq_ok.mp h
    unfold add at hadd
    split at hadd
    · cases hadd
    · cases hadd
      rw [ih h]
      simp

/-- A job that is refused leaves the graph as it is. -/
def offer (g : JobGraph) (job : Job) : JobGraph := (g.add job).toOption.getD g

theorem offer_cases (g : JobGraph) (job : Job) :
    job.name ∈ g.names ∧ g.offer job = g ∧
        g.add job = .error (.ofMessage s!"duplicate job name: {job.name}") ∨
      job.name ∉ g.names ∧ g.add job = .ok (g.offer job) ∧ (g.offer job).jobs = g.jobs ++ [job] := by
  by_cases h : job.name ∈ g.names
  · have hadd : g.add job = .error (.ofMessage s!"duplicate job name: {job.name}") := by
      simp [add, h]
    exact .inl ⟨h, by rw [offer, hadd]; rfl, hadd⟩
  · have hoffer : g.offer job = ⟨g.jobs ++ [job]⟩ := by rw [offer, add_of_not_mem h]; rfl
    exact .inr ⟨h, by rw [hoffer, add_of_not_mem h], by rw [hoffer]⟩

/-- What a run of offers leaves: the names of the jobs at their first places, and under each of
them the first job that has it. -/
theorem foldl_offer (offered : List Job) :
    (offered.foldl offer {}).names = (offered.map (·.name)).eraseDups ∧
      ∀ name, (offered.foldl offer {}).get? name = offered.find? fun job => job.name == name := by
  induction offered using List.reverseRecOn with
  | nil => exact ⟨rfl, fun _ => rfl⟩
  | append_singleton offered job ih =>
    obtain ⟨hnames, hget⟩ := ih
    rw [foldl_concat, map_append, map_singleton, Text.eraseDups_concat, ← hnames]
    have hmem : job.name ∈ offered.map (·.name) ↔ job.name ∈ (offered.foldl offer {}).names := by
      rw [hnames, mem_eraseDups]
    rcases offer_cases (offered.foldl offer {}) job with ⟨hold, heq, -⟩ | ⟨hnew, -, hjobs⟩
    · refine ⟨by rw [heq, if_pos (hmem.mpr hold), append_nil], fun name => ?_⟩
      rw [heq, hget, find?_append]
      cases hfound : offered.find? fun job => job.name == name with
      | some other => rfl
      | none =>
        -- The job is refused, so its name is that of a job before it.
        obtain ⟨other, hother, hname⟩ := mem_map.mp (hmem.mpr hold)
        have hne := find?_eq_none.mp hfound other hother
        rw [hname] at hne
        simp [hne]
    · refine ⟨?_, fun name => ?_⟩
      · rw [names, hjobs, map_append, if_neg (mt hmem.mp hnew)]
        rfl
      · rw [get?, hjobs, find?_append, find?_append, ← hget]
        rfl

/-! ## Checking -/

/-- The entries that do not name a job before the one that has them, in order. -/
def offences (g : JobGraph) : List (Job × String) :=
  g.jobs.zipIdx.flatMap fun e =>
    (e.1.needs.filter fun name => name ∉ (g.jobs.take e.2).map (·.name)).map fun name => (e.1, name)

def faultOf (all : List String) (offence : Job × String) : DependencyFault :=
  if offence.2 ∈ all then .notBefore offence.1.name offence.2
  else .unknown offence.1.name offence.2

theorem filterMap_dependencyFault? {all before : List String} (hsub : before ⊆ all) (job : Job)
    (needs : List String) : needs.filterMap (dependencyFault? all before job.name) =
      (needs.filter (· ∉ before)).map fun name => faultOf all (job, name) := by
  induction needs with
  | nil => rfl
  | cons name needs ih =>
    by_cases hbefore : name ∈ before
    · simp [dependencyFault?, hbefore, hsub hbefore, ih]
    · by_cases hall : name ∈ all <;>
        simp [dependencyFault?, faultOf, hbefore, hall, ih]

theorem faultsFrom_eq {all : List String} (before : List Job)
    (hsub : (before ++ jobs).map (·.name) ⊆ all) :
    faultsFrom all (before.map (·.name)) jobs = ((jobs.zipIdx before.length).flatMap fun e =>
      (e.1.needs.filter fun name => name ∉ ((before ++ jobs).take e.2).map (·.name)).map
        fun name => (e.1, name)).map (faultOf all) := by
  induction jobs generalizing before with
  | nil => rfl
  | cons job jobs ih =>
    have hall : before ++ job :: jobs = (before ++ [job]) ++ jobs := by simp
    have hbefore : before.map (·.name) ⊆ all := fun name hname =>
      hsub (map_append ▸ mem_append_left _ hname)
    have hrest := ih (before ++ [job]) (hall ▸ hsub)
    rw [map_append, length_append] at hrest
    rw [faultsFrom, zipIdx_cons, flatMap_cons, map_append, hall]
    refine congrArg₂ _ ?_ hrest
    rw [filterMap_dependencyFault? hbefore, append_assoc, take_left, map_map]
    rfl

theorem faults_eq (g : JobGraph) : g.faults = g.offences.map (faultOf g.names) :=
  faultsFrom_eq [] (List.Subset.refl _)

theorem offences_eq_nil : g.offences = [] ↔ g.IsTopological := by
  simp only [offences, flatMap_eq_nil_iff, map_eq_nil_iff, filter_eq_nil_iff, decide_eq_true_eq,
    not_not]
  constructor
  · intro h before job after hjobs
    have hplace : (job, before.length) ∈ g.jobs.zipIdx := by
      simp [mk_mem_zipIdx_iff_getElem?, hjobs]
    simpa [hjobs] using h _ hplace
  · rintro h ⟨job, place⟩ hplace
    obtain ⟨hlt, rfl⟩ := List.getElem?_eq_some_iff.mp (mk_mem_zipIdx_iff_getElem?.mp hplace)
    exact h _ _ (g.jobs.drop (place + 1)) (by rw [← drop_eq_getElem_cons hlt, take_append_drop])

theorem validate_eq (g : JobGraph) : g.validate =
    if g.offences = [] then .ok () else
      .error (.invalid .validation (g.offences.map fun o => (faultOf g.names o).message)) := by
  rw [validate, faults_eq]
  cases g.offences <;> simp

/-- **The check accepts exactly the graphs in topological order.** -/
theorem validate_eq_ok_iff (g : JobGraph) : g.validate = .ok () ↔ g.IsTopological := by
  rw [← offences_eq_nil, validate_eq]
  split <;> simp_all

/-! ## Building an order -/

theorem isTopological_nil : (⟨[]⟩ : JobGraph).IsTopological := by
  intro before job after h
  simp at h

theorem IsTopological.append {job : Job} (h : (⟨jobs⟩ : JobGraph).IsTopological)
    (hneeds : job.needs ⊆ jobs.map (·.name)) : (⟨jobs ++ [job]⟩ : JobGraph).IsTopological := by
  intro before other after hsplit name hname
  rcases eq_nil_or_concat after with rfl | ⟨after, last, rfl⟩
  · obtain ⟨rfl, rfl⟩ : jobs = before ∧ job = other := by simpa using hsplit
    exact hneeds hname
  · have hjobs : jobs = before ++ other :: after := by
      rw [concat_eq_append, ← cons_append, ← append_assoc] at hsplit
      exact (append_inj' hsplit rfl).1
    exact h before other after hjobs name hname

theorem IsTopological.append_all {more : List Job} (h : (⟨jobs⟩ : JobGraph).IsTopological)
    (hneeds : ∀ job ∈ more, job.needs ⊆ jobs.map (·.name)) :
    (⟨jobs ++ more⟩ : JobGraph).IsTopological := by
  induction more generalizing jobs with
  | nil => simpa using h
  | cons job more ih =>
    have hfirst := h.append (hneeds job mem_cons_self)
    have hrest : ∀ other ∈ more, other.needs ⊆ (jobs ++ [job]).map (·.name) := by
      intro other hother name hname
      have hmem := hneeds other (mem_cons_of_mem _ hother) hname
      simpa using Or.inl (mem_map.mp hmem)
    simpa using ih hfirst hrest

/-! ## Waiting -/

def WaitsFor (g : JobGraph) (name other : String) : Prop :=
  ∃ job ∈ g.jobs, job.name = name ∧ other ∈ job.needs

theorem idxOf_lt_of_waitsFor (h : g.IsTopological) (hnodup : g.names.Nodup) {name other : String}
    (hwaits : g.WaitsFor name other) : g.names.idxOf other < g.names.idxOf name := by
  obtain ⟨job, hjob, rfl, hneeds⟩ := hwaits
  obtain ⟨before, after, hjobs⟩ := append_of_mem hjob
  have hbefore := h before job after hjobs other hneeds
  rw [names, hjobs, map_append, map_cons] at hnodup ⊢
  have hnew : job.name ∉ before.map (·.name) :=
    fun hmem => (nodup_middle.mp hnodup).notMem (mem_append_left _ hmem)
  rw [idxOf_append_of_mem hbefore, idxOf_append_of_notMem hnew]
  exact Nat.lt_of_lt_of_le (idxOf_lt_length_of_mem hbefore) (Nat.le_add_right ..)

/-- **In topological order no job waits for itself**, be it through others. -/
theorem IsTopological.acyclic (h : g.IsTopological) (hnodup : g.names.Nodup) (name : String) :
    ¬ Relation.TransGen g.WaitsFor name name := by
  have hlt : ∀ other, Relation.TransGen g.WaitsFor name other →
      g.names.idxOf other < g.names.idxOf name := by
    intro other hpath
    induction hpath with
    | single hwaits => exact idxOf_lt_of_waitsFor h hnodup hwaits
    | tail _ hwaits ih => exact Nat.lt_trans (idxOf_lt_of_waitsFor h hnodup hwaits) ih
  exact fun hcycle => Nat.lt_irrefl _ (hlt name hcycle)

theorem toValue_eq (g : JobGraph) : g.toValue =
    g.validate.map fun _ => .obj (g.jobs.map fun job => (job.name, job.toValue)) := by
  rw [toValue]
  cases g.validate <;> rfl

/-- **A graph of offered jobs is rendered exactly in topological order.**  Whatever jobs are
offered, a job under a name that is taken is refused and changes nothing, and the others stand
under distinct names in the order of their offers.  The check accepts the graph when every job
waits for jobs before it only, so for itself not even through others; otherwise it lists the
entries that do not, in order, and tells names of later jobs from names of none. -/
theorem offered_rendered_iff_topological (offered : List Job) :
    let g := offered.foldl offer {}
    (∀ job, job.name ∈ g.names ∧ g.offer job = g ∧
        g.add job = .error (.ofMessage s!"duplicate job name: {job.name}") ∨
      job.name ∉ g.names ∧ g.add job = .ok (g.offer job) ∧
        (g.offer job).jobs = g.jobs ++ [job]) ∧
      g.names.Nodup ∧ g.names = (offered.map (·.name)).eraseDups ∧
      (∀ name, g.get? name = offered.find? fun job => job.name == name) ∧
      (g.validate = .ok () ↔ g.IsTopological) ∧
      (g.validate = .ok () → ∀ name, ¬ Relation.TransGen g.WaitsFor name name) ∧
      (g.validate ≠ .ok () → g.validate = .error (.invalid .validation (g.offences.map fun o =>
        if o.2 ∈ g.names then
          s!"job '{o.1.name}' depends on '{o.2}', which is not emitted before it"
        else s!"job '{o.1.name}' depends on unknown job '{o.2}'"))) ∧
      ((∃ v, g.toValue = .ok v) ↔ g.validate = .ok ()) := by
  intro g
  obtain ⟨hnames, hget⟩ := foldl_offer offered
  have hnodup : g.names.Nodup := hnames ▸ Text.nodup_eraseDups _
  have hmessage : ∀ o, (faultOf g.names o).message = if o.2 ∈ g.names then
      s!"job '{o.1.name}' depends on '{o.2}', which is not emitted before it"
      else s!"job '{o.1.name}' depends on unknown job '{o.2}'" := fun o => by
    unfold faultOf
    split <;> rfl
  refine ⟨offer_cases g, hnodup, hnames, hget, validate_eq_ok_iff g, ?_, ?_, ?_⟩
  · exact fun hvalid => ((validate_eq_ok_iff g).mp hvalid).acyclic hnodup
  · intro hfails
    rw [validate_eq] at hfails ⊢
    simp only [← hmessage]
    exact if_neg fun hnone => hfails (if_pos hnone)
  · rw [toValue_eq]
    cases g.validate <;> simp [Except.map]

end FlowLock.JobGraph
