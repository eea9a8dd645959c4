import FlowLock.Proofs.LockFile.RoundTrip
import FlowLock.Proofs.Workflow.Pins

/-!
# The actions that lock files use

A reference of a known action is its commit with the release after it.  In a lock file the
whole of it is one text, so what is loaded under `uses` names the release as well.
-/

namespace FlowLock.Compile

open Outcome Workflow Entries

theorem reference_ne_commit :
    ∀ pin ∈ ActionPin.known, pin.reference ≠ pin.repo ++ "@" ++ pin.commit := by
  decide

/-- **Actions are used with their releases in the lock file.**

The lock file of a source that compiles with the known pins is written from jobs, and loads
back to them with all their steps.  With any other resolver that knows the actions, the
source compiles as well, to jobs that differ in nothing but the actions that steps use; where
two steps differ, the one in the lock file uses a known action at its commit, and the
release follows in the same text.  There is such a step in every lock file. -/
theorem uses_name_release (tree : FileTree) (request : Request) (source : Path) (result : Result)
    (hpin : request.pin = resolvePin) (h : render tree request source = .ok result) :
    (∃ header head jobs,
      result.content = LockFile.render header (written head jobs) ∧
      (header.isComment = true →
        Yaml.isStorable Yaml.Reader.maxDepth (written head jobs) = true →
        Yaml.load Yaml.Schema.workflow result.content = .ok (written head jobs)) ∧
      (∀ q : PinResolver, q.IsComplete → ∃ result' jobs',
        render tree { request with pin := q } source = .ok result' ∧
        result'.content = LockFile.render header (written head jobs') ∧
        List.Forall₂ (Job.Repinned q) jobs jobs') ∧
      ∃ job ∈ jobs, ∃ es, Value.map es ∈ job.steps ∧ ∃ pin ∈ ActionPin.known,
        get? es "uses" = some (.str pin.reference)) ∧
    ∀ pin ∈ ActionPin.known,
      pin.reference = pin.repo ++ "@" ++ pin.commit ++ " # " ++ pin.version ∧
      pin.reference ≠ pin.repo ++ "@" ++ pin.commit := by
  refine ⟨?_, fun pin hpin => ⟨rfl, reference_ne_commit pin hpin⟩⟩
  obtain ⟨w, engine, warnings, more, graph, hsource, hw, hengine, hwarnings, hjobs, hfinite, rfl⟩ :=
    render_eq_ok.mp h
  have hctx : (contextOf request w).pin = resolvePin := hpin
  refine ⟨headerOf tree request source w, w.head graph.permissions, graph.jobs, rfl, ?_, ?_, ?_⟩
  · intro hcomment hstorable
    exact Yaml.load_document
      (List.forall_mem_map.mpr (LockFile.Header.isRemark_lines hcomment)) hstorable
      (LockFile.toList_render _ _)
  · intro q hq
    obtain ⟨⟨graph', _⟩, hjobs', hgraph, rfl⟩ := lifts_repin hctx hq w engine _ hjobs
    have hpermissions := hgraph.permissions_eq (Job.keepsOutline_of_steps fun _ _ h => h.1)
    have hfinite' : (written (w.head graph'.permissions) graph'.jobs).isFinite = true := by
      rw [hpermissions, isFinite_written _ hgraph, hfinite]
    refine ⟨_, graph'.jobs, render_eq_ok.mpr ⟨w, engine, warnings, more, graph', hsource, hw,
      hengine, hwarnings, hjobs', hfinite', rfl⟩, ?_, hgraph⟩
    dsimp only
    rw [hpermissions]
    rfl
  · obtain ⟨job, hjob, hactivation⟩ := exists_activationJob hjobs
    exact ⟨job, hjob, pinned_of_activationJob hctx hactivation⟩

def shortTree : FileTree :=
  { nodes := [(["repo", "a.md"], .file (Utf8.encode "---\non: push\n---\nHi\n"))]
    workdir := Path.ofText "/repo" }

theorem isComplete_commitOnly : commitOnly.IsComplete := by
  unfold PinResolver.IsComplete
  decide

/-- The short source compiles with the known pins and with commits alone; the jobs differ in
the actions that their steps use, and one of the steps uses an action with its release. -/
theorem uses_name_release_short :
    ({} : Request).pin = resolvePin ∧ commitOnly.IsComplete ∧
    ∃ result result' header head jobs jobs',
      render shortTree {} (.ofText "a.md") = .ok result ∧
      result.content = LockFile.render header (written head jobs) ∧
      render shortTree { pin := commitOnly } (.ofText "a.md") = .ok result' ∧
      result'.content = LockFile.render header (written head jobs') ∧
      List.Forall₂ (Job.Repinned commitOnly) jobs jobs' ∧
      ∃ job ∈ jobs, ∃ es, Value.map es ∈ job.steps ∧ ∃ pin ∈ ActionPin.known,
        get? es "uses" = some (.str pin.reference) := by
  obtain ⟨result, hresult⟩ : ∃ result, render shortTree {} (.ofText "a.md") = .ok result := by
    decide +kernel
  obtain ⟨⟨header, head, jobs, hcontent, -, hrepin, hstep⟩, -⟩ :=
    uses_name_release shortTree {} (.ofText "a.md") result rfl hresult
  obtain ⟨result', jobs', hresult', hcontent', hjobs⟩ := hrepin commitOnly isComplete_commitOnly
  exact ⟨rfl, isComplete_commitOnly, result, result', header, head, jobs, jobs', hresult, hcontent,
    hresult', hcontent', hjobs, hstep⟩

/-- A step that downloads, as it is loaded from a lock file: the release is part of the text
under `uses`, and no comment. -/
theorem download_loads_with_release :
    ∃ es, Step.download {} "Download agent output artifact" "agent-output" "/tmp/gh-aw/" =
        .ok (.map es) ∧
      Yaml.load Yaml.Schema.workflow
          (LockFile.render LockFile.shortHeader (.map [(.str "steps", .list [.map es])])) =
        .ok (.map [(.str "steps", .list [.map es])]) ∧
      get? es "uses" =
        some (.str ("actions/download-artifact@634f93cb2916e3fdff6788551b99b062d0335ce0" ++
          " # v5.0.0")) := by
  refine ⟨_, rfl, ?_, congrArg (fun text => some (Value.str text)) ?_⟩
  · exact Yaml.load_document LockFile.isRemark_shortHeader (by decide +kernel)
      (LockFile.toList_render _ _)
  · decide

end FlowLock.Compile
