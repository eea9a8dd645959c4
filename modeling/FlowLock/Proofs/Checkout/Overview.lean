import FlowLock.Proofs.Checkout.Idempotent
import FlowLock.Proofs.Text
import FlowLock.Prompt

/-!
# The overview of checkouts

The prompt tells of checkouts request by request, and they are done target by target.  The two
agree when no place is asked for twice; otherwise the overview has a bullet for every request, and
it stands there even when all requests are for one target.
-/

namespace FlowLock.Checkout

open List Text

/-- What the prompt says of a target: where it is, the workflow's own repository when it names
none, and whether it is the place where the agent starts and the one it works on. -/
def Target.bullet (t : Target) : String :=
  "  - `" ++ ("$GITHUB_WORKSPACE" ++
      if (relativePath t.path).isEmpty then "" else "/" ++ relativePath t.path) ++
    "` → `" ++ (if t.repository.isEmpty then "$\x7b\x7b github.repository \x7d\x7d"
      else t.repository) ++ "`" ++
    (if (relativePath t.path).isEmpty then " (cwd)" else "") ++
    (if t.current then
      " (**current** - this is the repository you are working on; use this as " ++
      "the target for all GitHub operations unless otherwise specified)"
    else "")

def listed (bullets : List String) : String :=
  "- **checkouts**: The following repositories have been checked out " ++
    "and are available in the workspace:\n" ++ unlines bullets ++ "\n"

theorem bullet_ofRequest (r : Request) : (Target.ofRequest r).bullet = r.overviewLine := by
  have hpath : relativePath (normalPath r.path) = relativePath r.path := by
    unfold normalPath
    split
    · next hdot => rw [beq_iff_eq.mp hdot]; decide
    · rfl
  unfold Target.bullet Request.overviewLine Target.ofRequest
  dsimp only
  rw [hpath]
  rfl

theorem checkoutSection_eq (w : Workflow) : Prompt.checkoutSection w =
    if 1 < w.checkouts.length then listed (w.checkouts.map Request.overviewLine) else "" := by
  unfold Prompt.checkoutSection overview
  split
  · next hmany =>
    have hsome : w.checkouts.isEmpty = false := by
      rw [isEmpty_eq_false_iff]
      exact ne_nil_of_length_pos (Nat.lt_of_succ_lt hmany)
    rw [hsome]
    rfl
  · rfl

theorem within_text {w : Workflow} (h : 1 < w.checkouts.length) :
    Within (Prompt.checkoutSection w) (Prompt.text w) := by
  have hline : ∀ text : String, (text ++ "\n").isEmpty = false := by simp
  have hsome : (Prompt.checkoutSection w).isEmpty = false := by
    rw [checkoutSection_eq, if_pos h]
    exact hline _
  unfold Prompt.text unlines
  refine Within.intercalate _ (mem_append_right _ ?_)
  simp [hsome]

/-- **The overview in the prompt lists the targets** exactly when no place is asked for twice.  It
stands in the prompt when there are several requests, with one bullet for each of them; these are
the bullets of the targets, in their order, when the places of the requests are distinct, and then
it stands there when there are several targets.  A path is shown as it is, without the dot and the
slash that it may start with. -/
theorem overview_lists_targets_iff (w : Workflow) :
    let targets := (Plan.ofRequests w.checkouts).targets
    Prompt.checkoutSection w =
        (if 1 < w.checkouts.length then listed (w.checkouts.map Request.overviewLine) else "") ∧
      (1 < w.checkouts.length → Within (Prompt.checkoutSection w) (Prompt.text w)) ∧
      (w.checkouts.map Request.overviewLine = targets.map Target.bullet ↔
        (w.checkouts.map Request.key).Nodup) ∧
      ((w.checkouts.map Request.key).Nodup → Prompt.checkoutSection w =
        if 1 < targets.length then listed (targets.map Target.bullet) else "") ∧
      ∀ t ∈ targets, ¬ startsWith t.path "./" → relativePath t.path = t.path := by
  intro targets
  have hsame (hnodup : (w.checkouts.map Request.key).Nodup) :
      w.checkouts.map Request.overviewLine = targets.map Target.bullet := by
    simp [targets, Plan.targets_of_nodup hnodup, bullet_ofRequest]
  have hlength : targets.length = (w.checkouts.map Request.key).eraseDups.length := by
    rw [← Plan.keys_ofRequests, Plan.keys, length_map]
  refine ⟨checkoutSection_eq w, within_text, ⟨fun heq => ?_, hsame⟩, fun hnodup => ?_, ?_⟩
  · refine nodup_of_length_eraseDups ?_
    simpa [hlength] using (congrArg length heq).symm
  · have hcount : w.checkouts.length = targets.length := by
      simpa using congrArg length (hsame hnodup)
    rw [checkoutSection_eq, hsame hnodup, hcount]
  · intro t ht hplain
    rw [relativePath, if_neg hplain]
    exact (Plan.isSettled_of_mem ht).path

/-- Two requests for one target. -/
theorem overview_of_one_target :
    ∃ requests, parse (.list [.obj [("path", .str "a")], .obj [("path", .str "a")]]) = .ok requests ∧
      (Plan.ofRequests requests).targets.length = 1 ∧
      ∀ w : Workflow, w.checkouts = requests → Prompt.checkoutSection w ≠ "" := by
  refine ⟨_, rfl, by decide, fun w hw => ?_⟩
  rw [checkoutSection_eq, hw]
  decide

end FlowLock.Checkout
