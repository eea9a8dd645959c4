import FlowLock.Proofs.Compile.Render
import FlowLock.Proofs.LockFile.Write

/-!
# A compile changes all or nothing

A compile reads the tree, makes the text of the lock file and only then writes.  So nothing
that goes wrong on the way touches the tree, and the writing itself either leaves it as it
was or replaces the lock file.
-/

namespace FlowLock.Compile

open LockFile (Trouble Replaces)

/-- Everything that a compile can do. -/
inductive Ran (trouble : Trouble) (tree : FileTree) (request : Request) (source : Path) :
    Outcome Result × FileTree → Prop
  | failed {e : Error} : Ran trouble tree request source (.error e, tree)
  | rendered {result : Result} (hwrites : request.writes = false)
      (hrender : render tree request source = .ok result) :
      Ran trouble tree request source (.ok result, tree)
  | written {result : Result} (hwrites : request.writes = true)
      (hrender : render tree request source = .ok result)
      (hpermits : LockFile.Permits trouble tree result.lockPath) :
      Ran trouble tree request source
        (.ok { result with written := true },
         tree.put (Path.resolve tree.workdir result.lockPath).names (Utf8.encode result.content))

theorem ran (trouble : Trouble) (tree : FileTree) (request : Request) (source : Path) :
    Ran trouble tree request source (run trouble tree request source) := by
  unfold run
  split
  · exact .failed
  · next result hrender =>
    cases hwrites : request.writes with
    | false => exact .rendered hwrites hrender
    | true =>
      obtain ⟨e, hwrite⟩ | ⟨hpermits, hwrite⟩ :=
        LockFile.write_cases trouble tree result.lockPath result.content
      · rw [hwrite]
        exact .failed
      · rw [hwrite]
        exact .written hwrites hrender hpermits

/-- **A compile changes all or nothing.**  Whatever goes wrong, in reading, checking and
rendering or in a step of writing, a compile that fails leaves the tree as it was, the old
lock file and all, and no temporary file.  A compile that succeeds gives what was rendered;
if it was to write, no step failed and the only change is that the file at the lock path has
the rendered text, and otherwise nothing changed. -/
theorem run_all_or_nothing (trouble : Trouble) (tree : FileTree) (request : Request)
    (source : Path) :
    (∀ e after, run trouble tree request source = (.error e, after) → after = tree) ∧
    ∀ result after, run trouble tree request source = (.ok result, after) →
      (∃ rendered, render tree request source = .ok rendered ∧
        result = { rendered with written := request.writes }) ∧
      result.lockPath = LockFile.pathOf source ∧
      (request.writes = false → after = tree) ∧
      (request.writes = true →
        (∀ step, trouble step = none) ∧
        Replaces tree after (Path.resolve tree.workdir result.lockPath).names
          (Utf8.encode result.content)) := by
  have hran := ran trouble tree request source
  refine ⟨fun e after h => ?_, fun result after h => ?_⟩
  · rw [h] at hran
    cases hran
    rfl
  · rw [h] at hran
    cases hran with
    | rendered hwrites hrender =>
      obtain ⟨hpath, hwritten⟩ := lockPath_of_render hrender
      refine ⟨⟨result, hrender, ?_⟩, hpath, fun _ => rfl, fun hyes => ?_⟩
      · rw [hwrites, ← hwritten]
      · rw [hwrites] at hyes
        cases hyes
    | @written rendered hwrites hrender hpermits =>
      obtain ⟨hpath, -⟩ := lockPath_of_render hrender
      refine ⟨⟨rendered, hrender, by rw [hwrites]⟩, hpath, fun hno => ?_,
        fun _ => ⟨hpermits.quiet, ?_⟩⟩
      · rw [hwrites] at hno
        cases hno
      · dsimp only
        rw [hpath] at hpermits ⊢
        exact LockFile.replaces_of_permits hpermits

def relockTree : FileTree :=
  { nodes :=
      [(["repo", "a.md"], .file (Utf8.encode "---\non: push\n---\nHi\n")),
       (["repo", "a.lock.yml"], .file (Utf8.encode "old\n"))]
    workdir := Path.ofText "/repo" }

def noCreation : Trouble := fun step =>
  if step = .create then some (.missing "/repo/.awc-TMP.yml.tmp") else none

/-- The source compiles, and the old lock file stays when there is no place for a temporary
file or nothing is to be written. -/
theorem run_all_or_nothing_relock :
    (∃ e, run noCreation relockTree {} (.ofText "a.md") = (.error e, relockTree)) ∧
    ∃ result, run LockFile.noTrouble relockTree { writes := false } (.ofText "a.md") =
      (.ok result, relockTree) := by
  obtain ⟨hfailed, hdone⟩ := run_all_or_nothing noCreation relockTree {} (.ofText "a.md")
  obtain ⟨-, hdry⟩ :=
    run_all_or_nothing LockFile.noTrouble relockTree { writes := false } (.ofText "a.md")
  constructor
  · rcases hrun : run noCreation relockTree {} (.ofText "a.md") with ⟨e | result, after⟩
    · exact ⟨e, by rw [hfailed e after hrun]⟩
    · obtain ⟨-, -, -, hwritten⟩ := hdone result after hrun
      exact absurd ((hwritten rfl).1 .create) (by decide)
  · obtain ⟨result, hresult⟩ : ∃ result,
        (run LockFile.noTrouble relockTree { writes := false } (.ofText "a.md")).1 = .ok result := by
      decide +kernel
    have hrun := (Prod.eta _).symm.trans (congrArg (·, _) hresult)
    obtain ⟨-, -, hsame, -⟩ := hdry result _ hrun
    exact ⟨result, hrun.trans (congrArg _ (hsame rfl))⟩

end FlowLock.Compile
