import FlowLock.Proofs.Compile.Render
import FlowLock.Proofs.Import.Summary
import FlowLock.Proofs.Network
import FlowLock.Proofs.Workflow.Check

/-!
# Strict mode only refuses more

Strict mode is looked at by the checks and by nothing else.  What it finds wrong is an error
there and at most a warning otherwise, so a workflow that passes in strict mode passes without
a warning of that kind, and its lock file is the one that it has anyway.

A workflow that passes gives its agent no access but to read, the identity token apart, and
no way to all domains.  The permissions and domains of its imports are among its own, so the
same holds of every document that it imports.
-/

namespace FlowLock

open Outcome Permissions Workflow LockFile Entries List

/-! ## Permissions to read -/

namespace Permissions

/-- No scope but the identity token is at a level that lets its holder change something. -/
def ReadsOnly (p : Permissions) : Prop :=
  ∀ scope, scope ≠ .idToken → p.get scope ≠ some .write ∧ p.get scope ≠ some .admin

variable {p : Permissions}

theorem readsOnly_iff :
    p.ReadsOnly ↔ ∀ scope, scope ≠ .idToken → strength (p.get scope) ≤ strength (some .read) := by
  refine forall₂_congr fun scope _ => ?_
  cases p.get scope with
  | none => decide
  | some level => cases level <;> decide

theorem readsOnly_of_grants (h : ∀ g ∈ p.grants, g.1 ≠ .idToken → g.2 ≠ .write ∧ g.2 ≠ .admin) :
    p.ReadsOnly := by
  intro scope hscope
  have hlevel : ∀ level, p.get scope = some level → level ≠ .write ∧ level ≠ .admin := by
    intro level hlevel
    obtain ⟨g, hg, rfl⟩ := Option.map_eq_some_iff.mp hlevel
    obtain rfl : g.1 = scope := by simpa using find?_some hg
    exact h g (mem_of_find?_eq_some hg) hscope
  exact ⟨fun hwrite => (hlevel _ hwrite).1 rfl, fun hadmin => (hlevel _ hadmin).2 rfl⟩

theorem ReadsOnly.of_join {q : Permissions} (h : (p.join q).ReadsOnly) :
    p.ReadsOnly ∧ q.ReadsOnly := by
  have hmax : ∀ scope, scope ≠ .idToken →
      max (strength (p.get scope)) (strength (q.get scope)) ≤ strength (some .read) := by
    intro scope hscope
    simpa using readsOnly_iff.mp h scope hscope
  exact ⟨readsOnly_iff.mpr fun scope hscope => (le_max_left ..).trans (hmax scope hscope),
    readsOnly_iff.mpr fun scope hscope => (le_max_right ..).trans (hmax scope hscope)⟩

theorem ReadsOnly.of_mem_joinAll {ps : List Permissions} (h : (joinAll ps).ReadsOnly)
    (hp : p ∈ ps) : p.ReadsOnly :=
  readsOnly_iff.mpr fun scope hscope =>
    ((isHighest_joinAll ps scope).covers p hp).trans (readsOnly_iff.mp h scope hscope)

end Permissions

/-! ## Workflows that pass in strict mode -/

namespace Workflow

variable {w : Workflow} {engine : Engine} {settings : Entries} {body digest : String}
  {source : Path} {imports : Imports} {mode : ActionMode}

theorem isSound_of_check {strict : Bool} (h : (w.check engine strict).1 = .ok ()) :
    w.IsSound engine strict := by
  rcases check_cases w engine strict with ⟨hsound, -⟩ | ⟨-, messages, -, hfail⟩
  · exact hsound
  · rw [hfail] at h
    cases h

/-- What passes in strict mode passes in any, with the same warnings. -/
theorem check_eq_of_strict (h : (w.check engine true).1 = .ok ()) (strict : Bool) :
    w.check engine strict = (.ok (), Check.experimental w engine) := by
  have hsound := isSound_of_check h
  have hfound : Check.found w strict = [] := by
    have hany : w.IsSound engine strict :=
      ⟨hsound.tools, hsound.outputs, fun _ => hsound.strictly rfl⟩
    exact (isSound_iff.mp hany).1
  rw [check_of_networkSupport_ok
    (Check.networkSupport_of_isEnforced (hsound.strictly rfl).network strict), hfound,
    append_nil]
  rfl

/-- The agent of a workflow that passes changes nothing. -/
theorem readsOnly_agentPermissions (h : w.permissions.ReadsOnly) :
    w.agentPermissions.ReadsOnly := by
  unfold agentPermissions
  split
  · exact readsOnly_of_grants (by decide)
  · exact h

theorem readsOnly_of_parsePermissions {p imported : Permissions}
    (himported : imports.permissions = imported.entries) (hordered : imported.IsOrdered)
    (h : parsePermissions settings imports = .ok p) (hp : p.ReadsOnly) : imported.ReadsOnly := by
  obtain ⟨own, -, h⟩ := bind_eq_ok.mp h
  split at h
  · next hempty =>
    have hgrants : imported.grants = [] := by
      simpa [himported, entries] using hempty
    exact readsOnly_of_grants (by simp [hgrants])
  · rw [himported, parse_entries hordered, ok_bind] at h
    cases h
    exact hp.of_join.2

/-- What a workflow is held to holds of the documents that it imports. -/
theorem imported_of_build (hdeclared : imports.Declared)
    (h : build settings body source imports mode digest = .ok w)
    (hpermissions : w.permissions.ReadsOnly) (hnetwork : "*" ∉ w.network.allowed)
    {file : Import.File} (hfile : file ∈ imports.documents) :
    (∃ p, parse (getD file.settings "permissions") = .ok p ∧ p.ReadsOnly) ∧
      "*" ∉ file.domains := by
  obtain ⟨hparse, hallowed, -, -⟩ := builtFrom_of_build h
  constructor
  · obtain ⟨ps, hps, hentries⟩ := hdeclared.permissions
    have hjoined : (joinAll ps).ReadsOnly :=
      readsOnly_of_parsePermissions hentries (isOrdered_joinAll ps) hparse hpermissions
    obtain ⟨p, hmem, hp⟩ : ∃ p ∈ ps,
        parse (getD file.settings "permissions") = .ok p := by
      obtain ⟨index, hindex, rfl⟩ := mem_iff_getElem.mp hfile
      have hbound : index < ps.length := hps.length_eq ▸ hindex
      exact ⟨ps[index], getElem_mem hbound, hps.get hindex hbound⟩
    exact ⟨p, hp, hjoined.of_mem_joinAll hmem⟩
  · intro hstar
    have himported : "*" ∈ imports.domains := by
      rw [hdeclared.domains, mem_eraseDups, mem_flatMap]
      exact ⟨file, hfile, hstar⟩
    exact hnetwork ((Network.mem_allowed_of_parse hallowed).mpr (.inr himported))

end Workflow

/-! ## Compiling in strict mode and without -/

namespace Compile

variable {tree : FileTree} {request : Request} {source : Path} {w : Workflow} {engine : Engine}

def Request.strictly (request : Request) (strict : Bool) : Request :=
  { request with config := { request.config with strict } }

@[simp] theorem workflowOf_strictly (strict : Bool) :
    workflowOf tree (request.strictly strict) source = workflowOf tree request source := rfl

theorem jobs_strictly (strict : Bool) : w.jobs engine (contextOf (request.strictly strict) w) =
      w.jobs engine (contextOf request w) := rfl

theorem checked_strictly {warnings : List Warning}
    (h : checked (contextOf (request.strictly true) w) engine w = .ok warnings) (strict : Bool) :
    checked (contextOf (request.strictly strict) w) engine w = .ok warnings := by
  have hskips : ∀ b, (contextOf (request.strictly b) w).config.skipValidation =
      request.config.skipValidation := fun _ => rfl
  have hstrict : (contextOf (request.strictly true) w).config.strict := rfl
  simp only [checked, hskips, hstrict] at h ⊢
  split at h
  · next hskip => rwa [if_pos hskip]
  · next hskip =>
    rw [if_neg hskip]
    have hpass : (w.check engine true).1 = .ok () := by
      split at h
      · next hcheck => rw [hcheck]
      · cases h
    rw [check_eq_of_strict hpass] at h ⊢
    exact h

theorem render_strictly {result : Result}
    (h : render tree (request.strictly true) source = .ok result) (strict : Bool) :
    render tree (request.strictly strict) source = .ok result := by
  obtain ⟨w, engine, warnings, more, graph, hsource, hw, hengine, hwarnings, hjobs, hfinite, rfl⟩ :=
    render_eq_ok.mp h
  refine render_eq_ok.mpr ⟨w, engine, warnings, more, graph, hsource, ?_, hengine,
    checked_strictly hwarnings strict, ?_, hfinite, rfl⟩
  · rw [workflowOf_strictly] at hw ⊢
    exact hw
  · rw [jobs_strictly] at hjobs ⊢
    exact hjobs

theorem build_of_workflowOf (h : workflowOf tree request source = .ok w) :
    ∃ settings body digest built mode, built.imports.Declared ∧
      build settings body source built.imports .dev digest = .ok built ∧
      w = { built with mode } := by
  simp only [workflowOf, bind_eq_ok] at h
  obtain ⟨document, -, resolution, hresolution, digest, -, built, hbuilt, mode, -, h⟩ := h
  cases h
  have himports := (builtFrom_of_build hbuilt).imports
  have hsummary := Imports.summary_of_resolve (Import.Cache.agrees_empty tree) hresolution
  refine ⟨document.settings, document.body, digest, built, mode, ?_, ?_, rfl⟩
  · rw [himports]
    exact hsummary.toDeclared
  · rw [himports]
    exact hbuilt

/-- **Strict mode only refuses more.**

For every tree, request and source: a compile that succeeds in strict mode succeeds without it,
with the same result, warnings included, and the same tree afterwards.  A workflow that passes
the checks in strict mode does not let its agent at all domains, and every job that is built for
its agent holds no scope but the identity token at a level to write or administer.  When the
workflow is read from the source, this holds of all that its imports declare. -/
theorem strict_only_refuses (trouble : Trouble) (tree : FileTree) (request : Request)
    (source : Path) :
    (∀ result after, run trouble tree (request.strictly true) source = (.ok result, after) →
      run trouble tree (request.strictly false) source = (.ok result, after)) ∧
    (∀ w engine ctx, (check w engine true).1 = .ok () →
      "*" ∉ w.network.allowed ∧ ∀ job warnings, w.agentJob engine ctx = .ok (job, warnings) →
        job.permissions.ReadsOnly) ∧
    (∀ w engine, workflowOf tree request source = .ok w →
      (check w engine true).1 = .ok () → ∀ file ∈ w.imports.documents,
        (∃ p, parse (getD file.settings "permissions") = .ok p ∧
          p.ReadsOnly) ∧
        "*" ∉ file.domains) := by
  refine ⟨?_, ?_, ?_⟩
  · intro result after h
    unfold run at h ⊢
    cases hrender : render tree (request.strictly true) source with
    | error e =>
      rw [hrender] at h
      cases h
    | ok found =>
      rw [hrender] at h
      rw [render_strictly hrender false]
      exact h
  · intro w engine ctx hcheck
    have hstrict := (isSound_of_check hcheck).strictly rfl
    refine ⟨hstrict.wildcard, fun job warnings hjob => ?_⟩
    have hpermissions : job.permissions = w.agentPermissions :=
      congrArg (·.permissions) (outline_agentJob hjob)
    rw [hpermissions]
    exact readsOnly_agentPermissions (readsOnly_of_grants hstrict.grants)
  · intro w engine hw hcheck file hfile
    have hstrict := (isSound_of_check hcheck).strictly rfl
    obtain ⟨settings, body, digest, built, mode, hdeclared, hbuild, rfl⟩ := build_of_workflowOf hw
    exact imported_of_build hdeclared hbuild
      (readsOnly_of_grants hstrict.grants) hstrict.wildcard hfile

def strictTree : FileTree :=
  { nodes :=
      [(["repo", "a.md"], .file (Utf8.encode "---\non: push\nimports: [b.md]\n---\n")),
       (["repo", "b.md"], .file (Utf8.encode
          "---\npermissions: \x7bissues: read\x7d\nnetwork: \x7ballowed: [python]\x7d\n---\n"))]
    workdir := Path.ofText "/repo" }

/-- The document compiles in strict mode, so it compiles without it to the same; and the import
asks for nothing but to read. -/
theorem strict_only_refuses_import :
    (∃ result after,
      run noTrouble strictTree (Request.strictly { writes := false } true)
        (.ofText "a.md") = (.ok result, after) ∧
      run noTrouble strictTree (Request.strictly { writes := false } false)
        (.ofText "a.md") = (.ok result, after)) ∧
    ∃ w, workflowOf strictTree { writes := false } (.ofText "a.md") = .ok w ∧
      (w.check .copilot true).1 = .ok () ∧ "*" ∉ w.network.allowed ∧
      ∃ file ∈ w.imports.documents, "*" ∉ file.domains ∧
        ∃ p, parse (getD file.settings "permissions") = .ok p ∧
          p.ReadsOnly := by
  obtain ⟨hsame, hagent, himported⟩ :=
    strict_only_refuses noTrouble strictTree { writes := false } (.ofText "a.md")
  constructor
  · obtain ⟨result, hresult⟩ : ∃ result, (run noTrouble strictTree
        (Request.strictly { writes := false } true) (.ofText "a.md")).1 = .ok result := by
      decide +kernel
    have hrun := (Prod.eta _).symm.trans (congrArg (·, _) hresult)
    exact ⟨result, _, hrun, hsame result _ hrun⟩
  · obtain ⟨w, hw, hcheck, hsome⟩ : ∃ w,
        workflowOf strictTree { writes := false } (.ofText "a.md") = .ok w ∧
        (w.check .copilot true).1 = .ok () ∧ w.imports.documents ≠ [] := by decide +kernel
    obtain ⟨file, hfile⟩ := exists_mem_of_ne_nil _ hsome
    obtain ⟨hpermissions, hdomains⟩ := himported w .copilot hw hcheck file hfile
    exact ⟨w, hw, hcheck, (hagent w .copilot {} hcheck).1, file, hfile, hdomains, hpermissions⟩

end Compile

end FlowLock
