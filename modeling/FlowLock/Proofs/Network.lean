import FlowLock.Proofs.Mcp.Wiring

/-!
# What an agent may reach behind the firewall

The domains that the firewall lets through come from four places: the endpoints of the engine,
the entries of the network section, the entries of the imports, and the groups that entries
name.  Nothing is taken out of them again.  A domain that the section blocks is therefore
still let through when one of the four places has it.
-/

namespace FlowLock

open Text Setting String

/-! ## Lists of texts -/

namespace Text

variable {x : String} {xs : List String}

theorem mem_union {ys : List String} : x ∈ union xs ys ↔ x ∈ xs ∨ x ∈ ys := by
  induction ys generalizing xs with
  | nil => simp [union]
  | cons y ys ih =>
    have hstep : union xs (y :: ys) = union (if xs.contains y then xs else xs ++ [y]) ys := rfl
    rw [hstep, ih, List.mem_cons]
    split
    case isTrue hy =>
      have hy : y ∈ xs := List.contains_iff_mem.mp hy
      constructor
      · exact Or.imp_right .inr
      · rintro (hx | rfl | hx)
        · exact .inl hx
        · exact .inl hy
        · exact .inr hx
    case isFalse => rw [List.mem_append, List.mem_singleton, or_assoc]

theorem mem_distinct : x ∈ distinct xs ↔ x ∈ xs := by
  rw [distinct, mem_union]
  exact or_iff_right List.not_mem_nil

theorem mem_sorted : x ∈ sorted xs ↔ x ∈ xs := mem_sortOn id x xs

end Text

/-! ## The entries of a section -/

namespace Network

variable {v : Value} {imported : List String} {n : Network} {d : String}

/-- The entries that a section allows itself: the defaults when there is no section or when it
asks for them, and else those that it lists. -/
def ownEntries (v : Value) : List String :=
  match v with
  | .null => ["defaults"]
  | .str "defaults" => ["defaults"]
  | v =>
    match texts (allowedSetting (v.entries?.getD [])) "network.allowed" with
    | .ok entries => entries
    | .error _ => []

theorem mem_allowed_defaults {entry : String} :
    entry ∈ (defaults imported).allowed ↔ entry ∈ ["defaults"] ∨ entry ∈ imported := by
  simp only [defaults, List.mem_cons, List.mem_filter, bne_iff_ne, ne_eq, List.not_mem_nil,
    or_false]
  by_cases h : entry = "defaults" <;> simp [h]

theorem entries?_of_object {name : String} {es : Entries} (h : object v name = .ok es) :
    v.entries? = some es := by
  unfold object at h
  split at h
  · next heq =>
    cases h
    simp only [Value.entries?, heq]
  · cases h

theorem mem_allowed_of_parse (h : parse v imported = .ok n) {entry : String} :
    entry ∈ n.allowed ↔ entry ∈ ownEntries v ∨ entry ∈ imported := by
  unfold parse at h
  split at h
  · cases h
    exact mem_allowed_defaults
  · cases h
    exact mem_allowed_defaults
  · next hnull hdefaults =>
    obtain ⟨es, hes, h⟩ := Outcome.bind_eq_ok.mp h
    obtain ⟨own, hown, h⟩ := Outcome.bind_eq_ok.mp h
    obtain ⟨blocked, -, h⟩ := Outcome.bind_eq_ok.mp h
    obtain ⟨firewall, -, h⟩ := Outcome.bind_eq_ok.mp h
    cases h
    have hentry : ownEntries v = own := by
      rw [ownEntries.eq_3 _ hnull hdefaults, entries?_of_object hes, Option.getD_some, hown]
    rw [hentry]
    exact mem_union

/-- A domain that one of some entries stands for, by itself or as one of a group. -/
def Allows (entries : List String) (d : String) : Prop := ∃ entry ∈ entries, d ∈ expand entry

theorem mem_domains {allowed engine : List String} :
    d ∈ domains allowed engine ↔ d ∈ engine ∨ Allows allowed d := by
  rw [domains, mem_sorted, mem_distinct, List.mem_append, List.mem_flatMap, Allows]

theorem allows_of_parse (h : parse v imported = .ok n) :
    Allows n.allowed d ↔ Allows (ownEntries v) d ∨ Allows imported d := by
  simp only [Allows, mem_allowed_of_parse h, or_and_right, exists_or]

/-- A command line that hands a list of domains to the firewall, as its whole list. -/
def LetsThrough (script : String) (domains : List String) : Prop :=
  Within (" --allow-domains " ++ ",".intercalate domains ++ " --log-level ") script

theorem letsThrough_wrapCommand (command : String) (domains : List String) (level : String) :
    LetsThrough (wrapCommand command domains level) domains := by
  have hhead : (" --allow-domains " : String) = " " ++ "--allow-domains " := rfl
  have htail : (" --log-level " : String) = " " ++ "--log-level " := rfl
  rw [LetsThrough, wrapCommand, hhead, htail]
  simp only [intercalate_cons_cons, intercalate_singleton, append_assoc]
  -- What stands before the piece goes, then what stands after it.
  iterate 9 refine Within.append_left ?_ _
  simp only [← append_assoc]
  iterate 6 refine Within.append_right ?_ _
  exact .refl _

end Network

def Workflow.withBlocked (w : Workflow) (blocked : List String) : Workflow :=
  { w with network := { w.network with blocked } }

namespace Engine

variable {e : Engine} {w : Workflow} {ctx : Context} {v : Value} {imported : List String}
  {steps : List Value} {warnings : List Warning}

theorem runSteps_withBlocked (e : Engine) (w : Workflow) (ctx : Context) (blocked : List String) :
    e.runSteps (w.withBlocked blocked) ctx = e.runSteps w ctx := by
  cases e <;> rfl

theorem ne_custom_of_usesFirewall (h : e.usesFirewall w) : e ≠ .custom := by
  rintro rfl
  cases h

/-- Behind the firewall an agent is run by a command line that hands over its domains. -/
theorem exists_letsThrough (hfirewall : e.usesFirewall w)
    (hrun : e.runSteps w ctx = .ok (steps, warnings)) :
    ∃ (step : Table Value) (script : String), steps.head? = some (.obj step) ∧
      Table.get? step "run" = some (.str script) ∧ Network.LetsThrough script (e.domains w) := by
  obtain ⟨logs, rfl⟩ := runSteps_eq_ok (ne_custom_of_usesFirewall hfirewall) hrun
  have hscript : Network.LetsThrough (e.runScript w) (e.domains w) := by
    have hcommand := Network.letsThrough_wrapCommand (e.command w) (e.domains w)
      w.network.firewall.logLevel
    unfold runScript
    dsimp only
    rw [if_pos hfirewall]
    exact (((hcommand.append_left _).append_right _).append_right _).append_right _
  refine ⟨_, _, rfl, rfl, ?_⟩
  split
  · exact hscript
  · exact hscript.append_right _

/-- Behind the firewall an agent reaches the endpoints of its engine and what the entries of the
section and of the imports stand for. -/
theorem mem_domains_of_parse (h : Network.parse v imported = .ok w.network) {d : String} :
    d ∈ e.domains w ↔ d ∈ e.profile.domains ∨ Network.Allows (Network.ownEntries v) d ∨
      Network.Allows imported d := by
  rw [domains, Network.mem_domains, Network.allows_of_parse h]

/-- **When blocked domains are kept out.**  Behind the firewall an agent is run with a list of
domains that it may reach.  What the network section blocks is kept out of the list exactly
when no endpoint of the engine, no entry of the section and no entry of an import stands for
it.  The section's blocked domains themselves change nothing: with any others the steps are
the same. -/
theorem blocked_kept_out_iff (hnetwork : Network.parse v imported = .ok w.network)
    (hfirewall : e.usesFirewall w = true) (hrun : e.runSteps w ctx = .ok (steps, warnings)) :
    (∃ (step : Table Value) (script : String), steps.head? = some (.obj step) ∧
      Table.get? step "run" = some (.str script) ∧
      Network.LetsThrough script (e.domains w)) ∧
    ((∀ d ∈ w.network.blocked, d ∉ e.domains w) ↔
      ∀ d ∈ w.network.blocked, d ∉ e.profile.domains ∧
        ¬ Network.Allows (Network.ownEntries v) d ∧ ¬ Network.Allows imported d) ∧
    ∀ blocked, e.runSteps (w.withBlocked blocked) ctx = .ok (steps, warnings) := by
  refine ⟨exists_letsThrough hfirewall hrun, ?_, ?_⟩
  · simp only [mem_domains_of_parse hnetwork, not_or]
  · intro blocked
    rw [runSteps_withBlocked, hrun]

def blockingSection (allowed blocked : String) : Value :=
  .obj [("allowed", .strs [allowed]), ("blocked", .strs [blocked])]

/-- A workflow with this section whose imports allow the domains for packages. -/
def blockingSample (allowed blocked : String) : Workflow :=
  { Mcp.declaring [] with
    network := { allowed := [allowed, "python"], blocked := [blocked], isExplicit := true } }

theorem runSteps_blockingSample (allowed blocked : String) :
    claude.usesFirewall (blockingSample allowed blocked) ∧
      ∃ steps warnings, claude.runSteps (blockingSample allowed blocked) {} =
        .ok (steps, warnings) := by
  refine ⟨rfl, ?_⟩
  obtain ⟨logs, hlogs⟩ : ∃ logs, Network.logSteps {} "sample" = .ok logs := by decide
  exact ⟨_, _, Outcome.bind_eq_ok.mpr ⟨logs, hlogs, rfl⟩⟩

theorem blocked_kept_out_iff_unasked :
    ∃ w steps warnings, Network.parse (blockingSection "docs.test" "ads.test") ["python"] =
        .ok w.network ∧
      claude.usesFirewall w = true ∧
      claude.runSteps w {} = .ok (steps, warnings) ∧
      w.network.blocked = ["ads.test"] ∧ "ads.test" ∉ claude.domains w ∧
      ∃ step script, steps.head? = some (.obj step) ∧
        Table.get? step "run" = some (.str script) ∧
        Network.LetsThrough script (claude.domains w) := by
  obtain ⟨hfirewall, steps, warnings, hrun⟩ := runSteps_blockingSample "docs.test" "ads.test"
  have hnetwork : Network.parse (blockingSection "docs.test" "ads.test") ["python"] =
      .ok (blockingSample "docs.test" "ads.test").network := rfl
  have hunasked : ∀ d ∈ (blockingSample "docs.test" "ads.test").network.blocked,
      d ∉ claude.profile.domains ∧
        ¬ Network.Allows (Network.ownEntries (blockingSection "docs.test" "ads.test")) d ∧
        ¬ Network.Allows ["python"] d := by
    unfold Network.Allows
    decide
  obtain ⟨hscript, hiff, -⟩ := blocked_kept_out_iff hnetwork hfirewall hrun
  exact ⟨_, steps, warnings, hnetwork, hfirewall, hrun, rfl,
    hiff.mpr hunasked "ads.test" List.mem_cons_self, hscript⟩

/-- A domain that the same section allows is let through although the section blocks it. -/
theorem blocked_let_through :
    ∃ w steps warnings, Network.parse (blockingSection "ads.test" "ads.test") ["python"] =
        .ok w.network ∧
      claude.usesFirewall w = true ∧
      claude.runSteps w {} = .ok (steps, warnings) ∧
      w.network.blocked = ["ads.test"] ∧ "ads.test" ∈ claude.domains w ∧
      ∃ step script, steps.head? = some (.obj step) ∧
        Table.get? step "run" = some (.str script) ∧
        Network.LetsThrough script (claude.domains w) := by
  obtain ⟨hfirewall, steps, warnings, hrun⟩ := runSteps_blockingSample "ads.test" "ads.test"
  exact ⟨_, steps, warnings, rfl, hfirewall, hrun, rfl, by decide,
    exists_letsThrough hfirewall hrun⟩

end Engine

end FlowLock
