import FlowLock.Proofs.Outcome
import FlowLock.Proofs.Text
import FlowLock.Proofs.Text.Split
import FlowLock.Workflow.Check

/-!
# Which workflows pass the checks

A check gathers messages, and a workflow passes when there are none.  What the absence of
each message means is said here without the check: about numbers, mounts and policies, about
tools and safe outputs, and about the network in strict mode.  Together these conditions hold
of exactly the workflows that pass.
-/

namespace FlowLock

open List Entries Text

namespace Check

/-! ## Settings -/

/-- A setting that is not set, or an integer in a range. -/
def IsUnsetOrWithin (low high : Int) (v : Value) : Prop :=
  v = .null ∨ ∃ n, v = .int n ∧ low ≤ n ∧ n ≤ high

/-- A source, a destination and a mode, with colons between them and none inside. -/
def IsMount (v : Value) : Prop :=
  ∃ source destination mode, v = .str (source ++ ":" ++ destination ++ ":" ++ mode) ∧
    ':' ∉ source.toList ∧ ':' ∉ destination.toList ∧ source ≠ "" ∧ destination ≠ "" ∧
    (mode = "ro" ∨ mode = "rw")

def NamesRepositories (v : Value) : Prop :=
  v.opened = .str "all" ∨ v.opened = .str "public" ∨
    ∃ items, v.opened = .list items ∧ items ≠ [] ∧
      ∀ item ∈ items, ∃ pattern, item = .str pattern ∧ repository pattern = none

def NamesIntegrity (v : Value) : Prop :=
  ∃ word ∈ ["none", "reader", "writer", "merged"], v = .str word

variable {field : String}

theorem intRange_eq_none {n low high : Int} :
    intRange n low high field = none ↔ low ≤ n ∧ n ≤ high := by
  unfold intRange
  split
  case isTrue h =>
    simp only [Bool.or_eq_true, decide_eq_true_eq] at h
    simp only [reduceCtorEq, false_iff]
    omega
  case isFalse h =>
    simp only [Bool.or_eq_true, decide_eq_true_eq] at h
    simp only [true_iff]
    omega

variable {v : Value}

theorem intField_eq_none {low high : Int} :
    intField v low high field = none ↔ IsUnsetOrWithin low high v := by
  unfold IsUnsetOrWithin
  cases v with
  | int n => simp [intField, intRange_eq_none]
  | _ => simp [intField]

private theorem intercalate_three (a b c : String) :
    (String.singleton ':').intercalate [a, b, c] = a ++ ":" ++ b ++ ":" ++ c := by
  have hcolon : String.singleton ':' = ":" := rfl
  simp [hcolon, String.intercalate_cons_cons, String.append_assoc]

theorem mount_eq_none : mount v field = none ↔ IsMount v := by
  constructor
  · intro h
    unfold mount at h
    split at h
    · next text =>
      split at h
      · next source destination mode hpieces =>
        obtain ⟨htext, hfree⟩ := (splitOn_eq_iff (by simp)).mp hpieces
        rw [intercalate_three] at htext
        split at h
        · cases h
        · next hparts =>
          split at h
          · next hmode =>
            simp only [Bool.or_eq_true, String.isEmpty_iff, not_or] at hparts
            exact ⟨source, destination, mode, by rw [htext], hfree _ (by simp),
              hfree _ (by simp), hparts.1, hparts.2, by simpa using hmode⟩
          · cases h
      · cases h
    · cases h
  · rintro ⟨source, destination, mode, rfl, hsource, hdestination, hsome, hother, hmode⟩
    have hfree : ':' ∉ mode.toList := by
      rcases hmode with rfl | rfl <;> decide
    have hpieces : Text.splitOn (source ++ ":" ++ destination ++ ":" ++ mode) ':' =
        [source, destination, mode] :=
      (splitOn_eq_iff (by simp)).mpr ⟨(intercalate_three ..).symm, by simp [*]⟩
    simp only [mount, hpieces]
    rw [if_neg (by simp [hsome, hother]), if_pos (by simpa using hmode)]

/-! ## Patterns for repositories -/

/-- A run of one or more characters of a class. -/
def IsRun (p : Char → Bool) (s : String) : Prop := s ≠ "" ∧ ∀ c ∈ s.toList, p c

/-- A run with or without a line feed after it. -/
def IsEndedRun (p : Char → Bool) (s : String) : Prop :=
  ∃ run, IsRun p run ∧ (s = run ∨ s = run ++ "\n")

def isNameChar (c : Char) : Bool := isOwnerChar c || c == '.'

/-- What stands after the owner: a name, a star, or the start of names and a star. -/
def NamesSome (isRun : (Char → Bool) → String → Prop) (name : String) : Prop :=
  name = "*" ∨ isRun isNameChar name ∨ ∃ start, name = start ++ "*" ∧ isRun isNameChar start

/-- The grammar of patterns, with the runs that it is made of left open. -/
def IsPattern (isRun : (Char → Bool) → String → Prop) (pattern : String) : Prop :=
  ∃ owner name, pattern = owner ++ "/" ++ name ∧ isRun isOwnerChar owner ∧ NamesSome isRun name

variable {isRun isRun' : (Char → Bool) → String → Prop} {p : Char → Bool} {q : Char → Prop}
  {s name pattern : String}

theorem IsRun.forall_mem (h : IsRun p s) (hp : ∀ c, p c → q c) : ∀ c ∈ s.toList, q c :=
  fun c hc => hp c (h.2 c hc)

theorem IsEndedRun.forall_mem (h : IsEndedRun p s) (hp : ∀ c, p c → q c) (hbreak : q '\n') :
    ∀ c ∈ s.toList, q c := by
  obtain ⟨run, hrun, rfl | rfl⟩ := h
  · exact hrun.forall_mem hp
  · simpa [or_imp, forall_and, hbreak] using hrun.forall_mem hp

theorem NamesSome.forall_mem (h : NamesSome isRun name) (hstar : q '*')
    (hname : ∀ {s}, isRun isNameChar s → ∀ c ∈ s.toList, q c) : ∀ c ∈ name.toList, q c := by
  obtain rfl | hrun | ⟨start, rfl, hrun⟩ := h
  · simpa using hstar
  · exact hname hrun
  · simpa [or_imp, forall_and, hstar] using hname hrun

theorem IsPattern.forall_mem (h : IsPattern isRun pattern) (hslash : q '/') (hstar : q '*')
    (howner : ∀ {s}, isRun isOwnerChar s → ∀ c ∈ s.toList, q c)
    (hname : ∀ {s}, isRun isNameChar s → ∀ c ∈ s.toList, q c) : ∀ c ∈ pattern.toList, q c := by
  obtain ⟨owner, name, rfl, hrun, hsome⟩ := h
  simpa [or_imp, forall_and, hslash] using ⟨howner hrun, hsome.forall_mem hstar hname⟩

theorem IsPattern.imp (h : IsPattern isRun pattern)
    (himp : ∀ {p s}, s.toList ⊆ pattern.toList → isRun p s → isRun' p s) :
    IsPattern isRun' pattern := by
  obtain ⟨owner, name, rfl, howner, hname⟩ := h
  refine ⟨owner, name, rfl, himp (by simp) howner, hname.imp_right (.imp (himp (by simp)) ?_)⟩
  rintro ⟨start, rfl, hrun⟩
  exact ⟨start, rfl, himp (fun c hc => by simp [hc]) hrun⟩

theorem isLine_iff (hp : p '\n' = false) : isLine p s ↔ IsEndedRun p s := by
  have hrun : ∀ run : String, (!run.isEmpty && run.toList.all p) = true ↔ IsRun p run := by
    simp [IsRun]
  have hdrop : ∀ run : String, dropLastChars (run ++ "\n") 1 = run := fun run =>
    dropLastChars_append run "\n"
  unfold isLine
  dsimp only
  rw [hrun]
  constructor
  · intro h
    split at h
    · next hends =>
      obtain ⟨run, rfl⟩ := endsWith_iff.mp hends
      exact ⟨run, hdrop run ▸ h, .inr rfl⟩
    · exact ⟨s, h, .inl rfl⟩
  · rintro ⟨run, h, rfl | rfl⟩
    · have hends : endsWith s "\n" = false :=
        not_endsWith_of_not_mem (c := '\n') fun hmem => by simp [h.2 _ hmem] at hp
      rwa [hends, if_neg Bool.false_ne_true]
    · rwa [if_pos (endsWith_iff.mpr ⟨run, rfl⟩), hdrop]

theorem IsEndedRun.ne_empty (h : IsEndedRun p s) : s ≠ "" := by
  obtain ⟨run, hrun, rfl | rfl⟩ := h
  · exact hrun.1
  · simp

theorem fault_eq_none {c : Prop} [Decidable c] {fault : String} {rest : Option String} :
    (if c then some fault else rest) = none ↔ ¬ c ∧ rest = none := by
  split <;> simp [*]

theorem repositoryName_eq_none : repositoryName name = none ↔ NamesSome IsEndedRun name := by
  have hline : ∀ s, isLine (fun c => isOwnerChar c || c == '.') s ↔ IsEndedRun isNameChar s :=
    fun s => isLine_iff (by decide)
  have hstar : ∀ {s}, IsEndedRun isNameChar s → '*' ∉ s.toList := by
    intro s h hmem
    refine h.forall_mem (q := (· ≠ '*')) ?_ (by decide) _ hmem rfl
    rintro _ h rfl
    exact absurd h (by decide)
  have hlast : ∀ {c : Prop} [Decidable c] {fault : String},
      (if c then none else some fault) = none ↔ c := by simp
  unfold repositoryName NamesSome
  dsimp only
  rw [fault_eq_none, fault_eq_none, hlast, Bool.or_eq_true, hline, String.isEmpty_iff,
    String.isEmpty_iff]
  by_cases hends : endsWith name "*"
  · obtain ⟨start, rfl⟩ := endsWith_iff.mp hends
    have hdrop : dropLastChars (start ++ "*") 1 = start := dropLastChars_append start "*"
    have hnone : ¬ IsEndedRun isNameChar (start ++ "*") := fun h => hstar h (by simp)
    have hinner : start = "" ∨ IsEndedRun isNameChar start → '*' ∉ start.toList := by
      rintro (rfl | hrun)
      · decide
      · exact hstar hrun
    simpa [hdrop, hends, hnone, hasChar] using hinner
  · have hnone : ∀ start, name ≠ start ++ "*" := fun start h => hends (endsWith_iff.mpr ⟨start, h⟩)
    have hinner : IsEndedRun isNameChar name → hasChar (dropLastChars name 1) '*' = false := by
      intro hrun
      simpa [hasChar, dropLastChars] using fun h => hstar hrun (mem_of_mem_take h)
    rw [if_neg hends]
    constructor
    · rintro ⟨hne, -, hrun⟩
      exact .inr (.inl (hrun.resolve_left hne))
    · rintro (rfl | hrun | ⟨start, rfl, -⟩)
      · exact absurd rfl (hnone "")
      · exact ⟨hrun.ne_empty, by simp [hinner hrun], .inr hrun⟩
      · exact absurd rfl (hnone start)

theorem lower_eq_self (h : ∀ c ∈ s.toList, c.toNat < 0x80 ∧ c.toLower = c) : lower s = s := by
  have hlist : ∀ (before cs : List Char), (∀ c ∈ cs, c.toNat < 0x80 ∧ c.toLower = c) →
      lowerList before cs = cs := by
    intro before cs hcs
    induction cs generalizing before with
    | nil => rfl
    | cons c cs ih =>
      obtain ⟨⟨hlow, hsame⟩, hcs⟩ := forall_mem_cons.mp hcs
      rw [lowerList, lowerChar, if_pos hlow, hsame, ih _ hcs]
      rfl
  rw [lower, hlist _ _ h, String.ofList_toList]

theorem toLower_of_isNameChar (c : Char) (h : isNameChar c) : c.toNat < 0x80 ∧ c.toLower = c := by
  have hlast : c ≤ 'z' := by
    simp only [isNameChar, isOwnerChar, isAsciiDigit, Bool.or_eq_true, Bool.and_eq_true,
      decide_eq_true_eq, beq_iff_eq] at h
    rcases h with (((⟨-, h⟩ | ⟨-, h⟩) | rfl) | rfl) | rfl
    · exact h
    · exact Char.le_trans h (by decide)
    all_goals decide
  have hsmall : c.toNat < 0x80 := lt_of_le_of_lt (b := 122) hlast (by decide)
  have hall : ∀ n < 0x80, isNameChar (Char.ofNat n) →
      (Char.ofNat n).toLower = Char.ofNat n := by decide
  exact ⟨hsmall, by simpa using hall c.toNat hsmall (by simpa using h)⟩

theorem repository_eq_none : repository pattern = none ↔ IsPattern IsEndedRun pattern := by
  have hjoin : ∀ owner name : String, (String.singleton '/').intercalate [owner, name] =
      owner ++ "/" ++ name := by simp
  have hparts : ∀ {owner name fault other : String},
      (if owner.isEmpty then some fault else if !isLine isOwnerChar owner then some other
        else repositoryName name) = none ↔
          IsEndedRun isOwnerChar owner ∧ NamesSome IsEndedRun name := by
    intro owner name fault other
    rw [fault_eq_none, fault_eq_none, repositoryName_eq_none, Bool.not_eq_true', Bool.not_eq_false,
      isLine_iff (by decide), String.isEmpty_iff]
    exact ⟨fun h => h.2, fun h => ⟨h.1.ne_empty, h⟩⟩
  have howner : ∀ c, isOwnerChar c → isNameChar c := by simp +contextual [isNameChar]
  have hslash : ∀ c, isNameChar c → c ≠ '/' := by
    rintro _ h rfl
    exact absurd h (by decide)
  unfold repository repositoryFault?
  rw [Option.map_eq_none_iff, fault_eq_none]
  constructor
  · rintro ⟨-, h⟩
    split at h
    · next owner name hpieces =>
      obtain ⟨hpattern, -⟩ := (splitOn_eq_iff (by simp)).mp hpieces
      exact ⟨owner, name, hpattern.trans (hjoin owner name), hparts.mp h⟩
    · cases h
  · intro h
    have hlower : lower pattern = pattern := by
      refine lower_eq_self (h.forall_mem (by decide) (by decide) (fun h => ?_) fun h => ?_)
      · exact h.forall_mem (fun c hc => toLower_of_isNameChar c (howner c hc)) (by decide)
      · exact h.forall_mem toLower_of_isNameChar (by decide)
    obtain ⟨owner, name, rfl, hrun, hname⟩ := h
    have hpieces : Text.splitOn (owner ++ "/" ++ name) '/' = [owner, name] := by
      refine (splitOn_eq_iff (by simp)).mpr ⟨(hjoin owner name).symm, ?_⟩
      rw [forall_mem_cons, forall_mem_singleton]
      refine ⟨fun h => ?_, fun h => ?_⟩
      · exact hrun.forall_mem (fun c hc => hslash c (howner c hc)) (by decide) _ h rfl
      · exact hname.forall_mem (by decide) (fun h => h.forall_mem hslash (by decide)) _ h rfl
    rw [hlower, hpieces]
    exact ⟨by simp, hparts.mpr ⟨hrun, hname⟩⟩

theorem isPattern_iff (hbreak : '\n' ∉ pattern.toList) :
    IsPattern IsEndedRun pattern ↔ IsPattern IsRun pattern := by
  refine ⟨fun h => h.imp ?_, fun h => h.imp fun _ hrun => ⟨_, hrun, .inl rfl⟩⟩
  rintro p _ hsub ⟨run, hrun, rfl | rfl⟩
  · exact hrun
  · exact absurd (hsub (by simp)) hbreak

/-- **A pattern for repositories is accepted** when it is made as the grammar says, except that a
line feed may stand after each of its runs.  Of the patterns without line feeds exactly those of
the grammar are accepted. -/
theorem repository_eq_none_iff (pattern : String) :
    (repository pattern = none ↔ IsPattern IsEndedRun pattern) ∧
      ('\n' ∉ pattern.toList → (repository pattern = none ↔ IsPattern IsRun pattern)) :=
  ⟨repository_eq_none, fun hbreak => repository_eq_none.trans (isPattern_iff hbreak)⟩

/-- A line feed at the end is accepted, and the grammar knows none. -/
theorem repository_of_line_feed :
    repository "octo/app\n" = none ∧ ¬ IsPattern IsRun "octo/app\n" := by
  refine ⟨by decide, fun h => ?_⟩
  have hfree : ∀ c ∈ "octo/app\n".toList, c ≠ '\n' := by
    refine h.forall_mem (by decide) (by decide) (fun h => ?_) fun h => ?_
    all_goals exact h.forall_mem (by rintro _ h rfl; exact absurd h (by decide))
  exact absurd hfree (by decide)

/-! ## Guard policies -/

theorem repositories_eq_nil {items : List Value} : repositories items = [] ↔
      ∀ item ∈ items, ∃ pattern, item = .str pattern ∧ repository pattern = none := by
  induction items with
  | nil => simp [repositories]
  | cons item items ih =>
    cases item with
    | str pattern => simp [repositories, ih]
    | _ => simp [repositories]

theorem guardRepos_eq_nil : guardRepos v = [] ↔ NamesRepositories v := by
  unfold guardRepos NamesRepositories
  cases v.opened with
  | str word => simp [or_iff_not_imp_left]
  | list items =>
    cases items with
    | nil => simp
    | cons item items => simp [repositories_eq_nil]
  | _ => simp

theorem guardIntegrity_eq_nil : guardIntegrity v = [] ↔ NamesIntegrity v := by
  unfold NamesIntegrity
  cases v with
  | str word =>
    rw [guardIntegrity.eq_2 _ (by simp)]
    simp [Value.isStr, eq_comm (b := word), or_iff_not_imp_left]
  | null => simp [guardIntegrity]
  | _ => simp [guardIntegrity, Value.isStr]

/-- The restrictions of the network are enforced: the firewall is not turned off where the
workflow says what is allowed, and the engine can run behind it where access is narrower than
the default. -/
@[mk_iff isEnforced_def]
structure IsEnforced (n : Network) (engine : Engine) : Prop where
  firewall : ¬(n.firewall.enabled = some false ∧ n.isExplicit = true ∧ n.allowed ≠ [])
  support : n.blocked ≠ [] ∨ n.isExplicit = true ∧ n.allowed ≠ ["defaults"] →
    engine.profile.supportsFirewall = true

end Check

/-! ## Workflows -/

@[mk_iff]
structure Workflow.HasSoundTools (w : Workflow) : Prop where
  /-- The shell is not named without a setting. -/
  shell : get? w.tools.declared "bash" ≠ some .null ∧
    get? w.tools.declared "bash" ≠ some (.map [])
  login : ∀ tool, w.tools.github = some tool → tool.app = none ∨ tool.token = ""
  /-- A guard policy names repositories and an integrity. -/
  guard : ∀ tool, w.tools.github = some tool → tool.guard.isSet = true →
    Check.NamesRepositories tool.guard.repos ∧ Check.NamesIntegrity tool.guard.minIntegrity
  retention : ∀ cache ∈ w.tools.caches, Check.IsUnsetOrWithin 1 90 cache.retentionDays
  fileSize : ∀ memory, w.tools.repoMemory = some memory →
    Check.IsUnsetOrWithin 1 104857600 memory.maxFileSize
  port : ∀ e ∈ w.tools.servers, Check.IsUnsetOrWithin 1 65535 e.2.port
  mounts : ∀ e ∈ w.tools.servers, ∀ v ∈ e.2.mounts, Check.IsMount v
  sandbox : ∀ v ∈ w.engine.sandbox.mounts, Check.IsMount v

@[mk_iff]
structure Workflow.HasSoundOutputs (w : Workflow) : Prop where
  /-- Only some types may name any repository. -/
  repository : ∀ s, w.safeOutputs = some s → ∀ o ∈ s.outputs, o.target.repository = "*" →
    o.kind.spec.anyRepository = true
  dispatch : ∀ s, w.safeOutputs = some s → ∀ o ∈ s.outputs, o.kind = .dispatchWorkflow →
    o.texts "workflows" ≠ []

@[mk_iff]
structure Workflow.IsStrictlySound (w : Workflow) (engine : Engine) : Prop where
  /-- No scope but the identity token may be changed. -/
  grants : ∀ g ∈ w.permissions.grants, g.1 ≠ .idToken → g.2 ≠ .write ∧ g.2 ≠ .admin
  wildcard : "*" ∉ w.network.allowed
  network : Check.IsEnforced w.network engine

@[mk_iff isSound_def]
structure Workflow.IsSound (w : Workflow) (engine : Engine) (strict : Bool) : Prop where
  tools : w.HasSoundTools
  outputs : w.HasSoundOutputs
  strictly : strict = true → w.IsStrictlySound engine

namespace Check

variable {w : Workflow} {engine : Engine} {strict : Bool}

private theorem told_eq_nil {told : Bool} {message : String} :
    (if told then [message] else []) = [] ↔ told = false := by
  cases told <;> simp

theorem shell_eq_nil {t : Tools} :
    shell t = [] ↔ get? t.declared "bash" ≠ some .null ∧
      get? t.declared "bash" ≠ some (.map []) := by
  unfold shell
  split
  case h_1 h => simp [h]
  case h_2 h => simp [h]
  case h_3 hnull hempty => exact iff_of_true rfl ⟨hnull, hempty⟩

theorem gitHub_eq_nil {tool : GitHubTool} :
    gitHub tool = [] ↔ (tool.app = none ∨ tool.token = "") ∧
      (tool.guard.isSet →
        NamesRepositories tool.guard.repos ∧ NamesIntegrity tool.guard.minIntegrity) := by
  have hguard : guard tool.guard = [] ↔
      NamesRepositories tool.guard.repos ∧ NamesIntegrity tool.guard.minIntegrity := by
    rw [guard, append_eq_nil_iff, guardRepos_eq_nil, guardIntegrity_eq_nil]
  unfold gitHub
  rw [append_eq_nil_iff, told_eq_nil]
  refine and_congr ?_ ?_
  · cases tool.app <;> simp
  · by_cases hset : tool.guard.isSet = true <;> simp [hset, hguard]

theorem server_eq_nil {name : String} {s : ToolServer} :
    server name s = [] ↔ IsUnsetOrWithin 1 65535 s.port ∧ ∀ v ∈ s.mounts, IsMount v := by
  simp only [server, append_eq_nil_iff, Option.toList_eq_nil_iff, filterMap_eq_nil_iff,
    intField_eq_none, mount_eq_none]

theorem tools_eq_nil : tools w = [] ↔ w.HasSoundTools := by
  simp only [tools, append_eq_nil_iff, flatMap_eq_nil_iff, filterMap_eq_nil_iff, Option.mem_toList,
    shell_eq_nil, gitHub_eq_nil, intField_eq_none, server_eq_nil, mount_eq_none,
    Workflow.hasSoundTools_iff, imp_and, forall_and, and_assoc]

theorem output_eq_nil {o : SafeOutput.Output} :
    output o = [] ↔ (o.target.repository = "*" → o.kind.spec.anyRepository) ∧
      (o.kind = .dispatchWorkflow → o.texts "workflows" ≠ []) := by
  unfold output
  rw [append_eq_nil_iff, told_eq_nil, told_eq_nil]
  refine and_congr ?_ ?_
  · by_cases hrepository : o.target.repository = "*" <;> simp [hrepository]
  · by_cases hkind : o.kind = .dispatchWorkflow <;> simp [hkind]

theorem outputs_eq_nil : outputs w = [] ↔ w.HasSoundOutputs := by
  simp only [outputs, flatMap_eq_nil_iff, Option.mem_toList, output_eq_nil,
    Workflow.hasSoundOutputs_iff, imp_and, forall_and]

/-! ## Strict mode -/

theorem strict_eq_nil : Check.strict w = [] ↔
      (∀ g ∈ w.permissions.grants, g.1 ≠ .idToken → g.2 ≠ .write ∧ g.2 ≠ .admin) ∧
        "*" ∉ w.network.allowed := by
  unfold strict
  rw [append_eq_nil_iff, map_eq_nil_iff, filter_eq_nil_iff, told_eq_nil]
  refine and_congr ?_ (by simp)
  refine forall₂_congr fun g _ => ?_
  simp [isWriting]

theorem isEnforced_iff {n : Network} : IsEnforced n engine ↔
      (n.firewall.enabled != some false || !(n.isExplicit && !n.allowed.isEmpty)) ∧
        (!n.hasRestrictions || engine.profile.supportsFirewall) := by
  have hsupport : (!n.hasRestrictions || engine.profile.supportsFirewall) ↔
      (n.blocked ≠ [] ∨ n.isExplicit ∧ n.allowed ≠ ["defaults"] →
        engine.profile.supportsFirewall) := by
    unfold Network.hasRestrictions
    cases engine.profile.supportsFirewall <;> cases n.isExplicit <;> simp
  rw [isEnforced_def, hsupport]
  simp [or_iff_not_imp_left]

/-- Where the restrictions are enforced there is nothing to tell. -/
theorem networkSupport_of_isEnforced (h : IsEnforced w.network engine) (strict : Bool) :
    networkSupport w engine strict = .ok [] := by
  obtain ⟨hfirewall, hsupport⟩ := isEnforced_iff.mp h
  rw [networkSupport, Network.checkDisabled, if_pos hfirewall, Outcome.ok_bind, if_pos hsupport]

theorem networkSupport_of_not_isEnforced (h : ¬IsEnforced w.network engine) :
    ∃ message, networkSupport w engine true = .error (.ofMessage message) := by
  rw [isEnforced_iff, not_and_or] at h
  unfold networkSupport Network.checkDisabled
  split
  case isTrue hfirewall =>
    rw [Outcome.ok_bind, if_neg (h.resolve_left (not_not_intro hfirewall)), if_pos rfl]
    exact ⟨_, rfl⟩
  case isFalse hfirewall => exact ⟨_, rfl⟩

theorem networkSupport_lenient (w : Workflow) (engine : Engine) :
    ∃ warnings, networkSupport w engine false = .ok warnings := by
  unfold networkSupport Network.checkDisabled
  simp only [Bool.false_eq_true, if_false]
  split <;> rw [Outcome.ok_bind] <;> split <;> exact ⟨_, rfl⟩

/-! ## All messages -/

/-- What is found wrong with a workflow, apart from restrictions that are not enforced. -/
def found (w : Workflow) (strict : Bool) : List String :=
  tools w ++ outputs w ++ if strict then Check.strict w else []

end Check

theorem Findings.addAll_eq (f : Findings) (messages : List String) :
    f.addAll messages = { f with messages := f.messages ++ messages } := by
  induction messages generalizing f with
  | nil => simp [addAll]
  | cons message messages ih =>
    have hstep : f.addAll (message :: messages) = (f.add message none).addAll messages := rfl
    have hkind : (f.add message none).kind = f.kind := by
      unfold add
      cases f.kind <;> rfl
    rw [hstep, ih, hkind]
    simp [add]

namespace Workflow

variable {w : Workflow} {engine : Engine} {strict : Bool}

theorem check_of_networkSupport_ok {more : List Warning}
    (h : Check.networkSupport w engine strict = .ok more) :
    w.check engine strict = (Findings.report { messages := Check.found w strict },
        Check.experimental w engine ++ more) := by
  simp only [check, h, Findings.addAll_eq, Check.found, nil_append]

theorem check_of_networkSupport_error {message : String}
    (h : Check.networkSupport w engine strict = .error (.ofMessage message)) :
    w.check engine strict = (Findings.report { messages := Check.found w strict ++ [message] },
        Check.experimental w engine) := by
  simp only [check, h, Error.ofMessage, Findings.addAll_eq, Check.found, nil_append]
  rfl

theorem isSound_iff : w.IsSound engine strict ↔
      Check.found w strict = [] ∧ (strict → Check.IsEnforced w.network engine) := by
  rw [Check.found, append_eq_nil_iff, append_eq_nil_iff, Check.tools_eq_nil, Check.outputs_eq_nil,
    isSound_def, isStrictlySound_iff]
  cases strict <;> simp [Check.strict_eq_nil, and_assoc]

private theorem report_eq (messages : List String) : Findings.report { messages } =
      if messages = [] then .ok () else .error (.invalid .validation messages) := by
  cases messages <;> rfl

/-- A sound workflow passes, and every other one is refused with messages. -/
theorem check_cases (w : Workflow) (engine : Engine) (strict : Bool) :
    w.IsSound engine strict ∧ (w.check engine strict).1 = .ok () ∨
      ¬w.IsSound engine strict ∧ ∃ messages, messages ≠ [] ∧
        (w.check engine strict).1 = .error (.invalid .validation messages) := by
  rw [isSound_iff]
  by_cases hnetwork : strict → Check.IsEnforced w.network engine
  · -- The network is no reason to refuse the workflow.
    obtain ⟨more, hmore⟩ : ∃ more, Check.networkSupport w engine strict = .ok more := by
      cases strict with
      | false => exact Check.networkSupport_lenient w engine
      | true => exact ⟨_, Check.networkSupport_of_isEnforced (hnetwork rfl) true⟩
    rw [check_of_networkSupport_ok hmore, report_eq]
    by_cases hfound : Check.found w strict = []
    · exact .inl ⟨⟨hfound, hnetwork⟩, if_pos hfound⟩
    · exact .inr ⟨fun h => hfound h.1, _, hfound, if_neg hfound⟩
  · obtain ⟨rfl, hopen⟩ := Classical.not_imp.mp hnetwork
    obtain ⟨message, hmessage⟩ := Check.networkSupport_of_not_isEnforced hopen
    rw [check_of_networkSupport_error hmessage, report_eq, if_neg (by simp)]
    exact .inr ⟨fun h => hnetwork h.2, _, by simp, rfl⟩

/-- **The workflows that pass the checks are the sound ones.**  For every workflow, engine and
context: the checks are passed exactly when the workflow is sound, and a workflow that is not
is refused with at least one message, as a failed check and in no other way. -/
theorem check_passes_iff (w : Workflow) (engine : Engine) (ctx : Context) :
    ((w.check engine ctx.config.strict).1 = .ok () ↔ w.IsSound engine ctx.config.strict) ∧
    (w.IsSound engine ctx.config.strict ∨ ∃ messages, messages ≠ [] ∧
      (w.check engine ctx.config.strict).1 = .error (.invalid .validation messages)) := by
  rcases check_cases w engine ctx.config.strict with
    ⟨hsound, hpass⟩ | ⟨hsound, messages, hne, hfail⟩
  · exact ⟨iff_of_true hpass hsound, .inl hsound⟩
  · refine ⟨iff_of_false ?_ hsound, .inr ⟨messages, hne, hfail⟩⟩
    rw [hfail]
    simp

/-- A workflow with a guard policy, a memory, and a server with a port and mounts. -/
def guardedSample (mounts : List Value) : Workflow :=
  { name := "sample", source := Path.ofText "sample.md", body := "", on := [], engine := {}
    tools :=
      { github := some
          { token := "t"
            guard := { repos := .strs ["octo/*", "octo/docs"], minIntegrity := .str "merged" } }
        caches := [{ retentionDays := .int 90 }]
        servers :=
          [("files", { name := "files", container := "files", port := .int 65535, mounts })]
        declared := [(.str "bash", .strs ["ls"])] }
    network := { allowed := ["python"], isExplicit := true }
    permissions := .ofGrants [(.contents, .read), (.idToken, .write)]
    checkouts := [], safeOutputs := none, imports := {} }

/-- The sample passes in strict mode, so it is sound; with a mount that has no mode it does not
pass, so it is not. -/
theorem check_passes_iff_guarded :
    (guardedSample [.str "/a:/b:ro"]).IsSound .claude true ∧
      ¬(guardedSample [.str "/a:/b"]).IsSound .claude true := by
  have hstrict : ({ config := { strict := true } } : Context).config.strict = true := rfl
  have hpass : ((guardedSample [.str "/a:/b:ro"]).check .claude true).1 = .ok () := by
    decide +kernel
  have hfail : ((guardedSample [.str "/a:/b"]).check .claude true).1 ≠ .ok () := by
    decide +kernel
  have hiff := fun w => (check_passes_iff w .claude { config := { strict := true } }).1
  rw [hstrict] at hiff
  exact ⟨(hiff _).mp hpass, fun h => hfail ((hiff _).mpr h)⟩

end Workflow

end FlowLock
