import FlowLock.Proofs.Network

/-!
# Which servers an agent may use

An agent is told about its servers in one place and which tools it may use in another, and
each place has its own list of cases.  A server can be used when it is allowed as a whole, or
when it is restricted to some tools and each of them is allowed.

The lists agree but for two servers: the one that tells about workflows and the one that serves
safe inputs are set up, and no case allows them.
-/

namespace FlowLock

open List Text

namespace Mcp

/-- The tools to which the server of a name is restricted; there are none when it is not. -/
def toolsOf (w : Workflow) (typed fetches : Bool) (name : String) : List String :=
  if (builtIn w typed fetches).has name then
    if name = "github" then (w.tools.github.map (·.allowed)).getD [] else []
  else ((w.tools.servers.get? name).map (·.allowed)).getD []

/-- The built-in servers of a workflow for which there is no case among the allowed tools. -/
def overlooked (w : Workflow) : List String :=
  (if w.tools.agenticWorkflows then ["agentic_workflows"] else []) ++
  (if w.safeInputs.isEmpty then [] else ["safeinputs"])

def DeclaredWhole (w : Workflow) (name : String) : Prop :=
  ∃ server, (name, server) ∈ w.tools.servers ∧ Engine.isNarrow server.allowed = false

variable {w : Workflow} {typed : Bool} {name : String}

theorem has_builtIn_iff : (builtIn w typed true).has name ↔
      name = "github" ∧ w.tools.github.isSome ∨
      name = "playwright" ∧ w.tools.playwright.isSome ∨
      name = "serena" ∧ w.tools.serena.isSome ∨
      name = "safeoutputs" ∧ hasOutputs w ∨ name ∈ overlooked w := by
  have hoption : ∀ {α : Type} (o : Option α) (key : String) (f : α → Value),
      (o.toList.map fun t => (key, f t)).any (fun e => e.1 == name) ↔ name = key ∧ o.isSome := by
    intro α o key f
    cases o <;> simp [@eq_comm _ name]
  have hcase : ∀ (b : Bool) (e : String × Value),
      (if b then [e] else []).any (fun e => e.1 == name) ↔ name ∈ if b then [e.1] else [] := by
    intro b e
    cases b <;> simp [@eq_comm _ name]
  have hinputs : (if w.safeInputs.isEmpty then []
        else [("safeinputs", safeInputs typed w.safeInputs)]).any (fun e => e.1 == name) ↔
      name ∈ if w.safeInputs.isEmpty then [] else ["safeinputs"] := by
    cases w.safeInputs.isEmpty <;> simp [@eq_comm _ name]
  have houtputs : name ∈ (if hasOutputs w then ["safeoutputs"] else []) ↔
      name = "safeoutputs" ∧ hasOutputs w := by
    cases hasOutputs w <;> simp
  simp only [builtIn, Table.has, any_append, Bool.or_eq_true, hoption, hcase, hinputs,
    houtputs, Bool.not_true, Bool.and_false, overlooked, mem_append]
  simp only [Bool.false_eq_true, if_false, not_mem_nil, or_false, or_assoc]
  exact or_congr_right (or_congr_right (or_congr_right or_left_comm))

theorem has_servers_iff : (servers w typed true).has name ↔ (builtIn w typed true).has name ∨
        (builtIn w typed true).has name = false ∧
          ∃ server, w.tools.servers.get? name = some server := by
  rw [Table.has_eq_isSome, Table.has_eq_isSome, servers, Table.get?_addNew]
  cases (builtIn w typed true).get? name <;> simp [Option.isSome_iff_exists]

end Mcp

namespace Engine

/-- How an engine names a server in the list of the tools that are allowed, and how a tool
of it. -/
structure ToolNames where
  whole : String → String
  single : String → String → String

def claudeNames : ToolNames where
  whole server := "mcp__" ++ server
  single server tool := s!"mcp__{server}__{tool}"

def copilotNames : ToolNames where
  whole server := "--allow-tool " ++ server
  single server tool := s!"--allow-tool '{server}({tool})'"

/-- A server can be used: it is allowed as a whole, or it is restricted to some tools and each
of them is allowed. -/
def ToolNames.Allow (names : ToolNames) (allowed : List String) (server : String)
    (tools : List String) : Prop :=
  names.whole server ∈ allowed ∨ tools ≠ [] ∧ ∀ tool ∈ tools, names.single server tool ∈ allowed

/-- A list of the tools that are allowed has a case for every server but two.  What it says of
those two comes from the declared servers. -/
structure ToolNames.Lists (names : ToolNames) (allowed : List String) (w : Workflow) : Prop where
  gitHub : ∀ tool, w.tools.github = some tool → names.Allow allowed "github" tool.allowed
  browser : w.tools.playwright.isSome → names.whole "playwright" ∈ allowed
  language : w.tools.serena.isSome → names.whole "serena" ∈ allowed
  outputs : Mcp.hasOutputs w = true → names.whole "safeoutputs" ∈ allowed
  declared : ∀ name server, (name, server) ∈ w.tools.servers →
    names.Allow allowed name server.allowed
  whole : ∀ name ∈ ["agentic_workflows", "safeinputs"],
    names.whole name ∈ allowed ↔ Mcp.DeclaredWhole w name

variable {w : Workflow} {names : ToolNames} {allowed : List String} {typed : Bool} {name : String}
  {entry : String}

theorem mem_of_mem_overlooked (h : name ∈ Mcp.overlooked w) :
    name ∈ ["agentic_workflows", "safeinputs"] := by
  have hcases : (w.tools.agenticWorkflows ∧ name = "agentic_workflows") ∨
      (¬w.safeInputs = [] ∧ name = "safeinputs") := by
    simpa [Mcp.overlooked] using h
  rcases hcases with ⟨-, rfl⟩ | ⟨-, rfl⟩ <;> simp

/-- The servers that can be used are those for which there is a case, and those that are
declared without a restriction under the name of another. -/
theorem ToolNames.Lists.allow_iff (h : names.Lists allowed w)
    (hserver : (Mcp.servers w typed true).has name) :
    names.Allow allowed name (Mcp.toolsOf w typed true name) ↔
      (name ∈ Mcp.overlooked w → Mcp.DeclaredWhole w name) := by
  rcases Mcp.has_servers_iff.mp hserver with hbuiltIn | ⟨hfree, server, hdeclared⟩
  · by_cases hover : name ∈ Mcp.overlooked w
    · -- No tool of an overlooked server is named, so it has to be allowed as a whole.
      have hmem := mem_of_mem_overlooked hover
      have htools : Mcp.toolsOf w typed true name = [] := by
        have hne : name ≠ "github" := fun heq => absurd (heq ▸ hmem) (by decide)
        rw [Mcp.toolsOf, if_pos hbuiltIn, if_neg hne]
      rw [ToolNames.Allow, htools, h.whole name hmem]
      simp [hover]
    · refine iff_of_true ?_ fun hmem => absurd hmem hover
      rw [Mcp.toolsOf, if_pos hbuiltIn]
      rcases Mcp.has_builtIn_iff.mp hbuiltIn with ⟨rfl, hsome⟩ | ⟨rfl, hsome⟩ | ⟨rfl, hsome⟩ |
        ⟨rfl, hsome⟩ | hmem
      · obtain ⟨tool, htool⟩ := Option.isSome_iff_exists.mp hsome
        rw [if_pos rfl, htool]
        exact h.gitHub tool htool
      · exact .inl (h.browser hsome)
      · exact .inl (h.language hsome)
      · exact .inl (h.outputs hsome)
      · exact absurd hmem hover
  · have hover : name ∉ Mcp.overlooked w := fun hmem => by
      rw [Mcp.has_builtIn_iff.mpr (.inr (.inr (.inr (.inr hmem))))] at hfree
      cases hfree
    refine iff_of_true ?_ fun hmem => absurd hmem hover
    rw [Mcp.toolsOf, hfree, if_neg Bool.false_ne_true, hdeclared]
    exact h.declared name server (Table.mem_of_get? hdeclared)

def ToolNames.entries (names : ToolNames) (e : String × ToolServer) : List String :=
  if isNarrow e.2.allowed then e.2.allowed.map (names.single e.1) else [names.whole e.1]

theorem ToolNames.allow_of_entries {e : String × ToolServer}
    (h : names.entries e ⊆ allowed) : names.Allow allowed e.1 e.2.allowed := by
  unfold entries at h
  split at h
  · next hnarrow =>
    have hne : e.2.allowed ≠ [] := by
      rintro hnil
      rw [hnil] at hnarrow
      cases hnarrow
    exact .inr ⟨hne, fun tool htool => h (mem_map_of_mem htool)⟩
  · exact .inl (h mem_cons_self)

/-- A server is named as a whole where it is declared without a restriction; no tool of
another has such a name. -/
theorem ToolNames.mem_entries_iff (hwhole : Function.Injective names.whole)
    (hsingle : ∀ server tool, names.whole name ≠ names.single server tool) :
    names.whole name ∈ w.tools.servers.flatMap names.entries ↔ Mcp.DeclaredWhole w name := by
  rw [mem_flatMap]
  constructor
  · rintro ⟨⟨key, server⟩, hmem, hentry⟩
    unfold entries at hentry
    split at hentry
    · obtain ⟨tool, -, htool⟩ := mem_map.mp hentry
      exact absurd htool.symm (hsingle key tool)
    · next hnarrow =>
      obtain rfl := hwhole (mem_singleton.mp hentry)
      exact ⟨server, hmem, by simpa using hnarrow⟩
  · rintro ⟨server, hmem, hnarrow⟩
    refine ⟨(name, server), hmem, ?_⟩
    rw [entries, hnarrow, if_neg Bool.false_ne_true]
    exact mem_cons_self

theorem mem_of_mem_if {c : Bool} {some fixed : List String} (h : some ⊆ fixed)
    (hentry : entry ∈ if c then some else []) : entry ∈ fixed := by
  cases c with
  | false => cases hentry
  | true => exact h hentry

theorem ne_append_of_start {text start : String} (h : ¬start.toList <+: text.toList)
    (rest : String) : text ≠ start ++ rest := by
  rintro rfl
  rw [String.toList_append] at h
  exact h (prefix_append ..)

theorem append_left_injective (start : String) : Function.Injective (start ++ ·) :=
  fun _ _ h => (String.append_right_inj start).mp h

/-! ## Claude -/

theorem claudeNames_whole_ne_single (hname : name ∈ ["agentic_workflows", "safeinputs"])
    (server tool : String) : claudeNames.whole name ≠ claudeNames.single server tool := by
  intro h
  have heq : name = server ++ "__" ++ tool := by
    refine (String.append_right_inj "mcp__").mp (h.trans ?_)
    simp only [claudeNames, toString, String.append_assoc]
  have hnone : ∀ name ∈ ["agentic_workflows", "safeinputs"], ¬"__".toList <:+: name.toList := by
    decide +kernel
  exact hnone name hname ⟨server.toList, tool.toList, by simp [heq]⟩

/-- The names in Claude's list that stand for its own tools and for built-in servers. -/
def claudeFixed : List String :=
  ["ExitPlanMode", "Glob", "Grep", "LS", "NotebookRead", "Read", "Task", "TodoWrite", "Bash",
   "Edit", "MultiEdit", "NotebookEdit", "Write", "WebFetch", "WebSearch", "mcp__github", "mcp__playwright",
   "mcp__serena", "mcp__safeoutputs"]

theorem claudeTools_cases (h : entry ∈ claudeTools w) :
    entry ∈ claudeFixed ∨ (∃ command, entry = "Bash(" ++ command) ∨
      (∃ tool, entry = "mcp__github__" ++ tool) ∨
      entry ∈ w.tools.servers.flatMap claudeNames.entries := by
  unfold claudeTools at h
  rw [mem_sorted, mem_distinct] at h
  simp only [mem_append, or_assoc] at h
  rcases h with h | h | h | h | h | h | h | h | h | h
  · exact .inl (mem_of_mem_if (c := true) (by decide) h)
  · split at h
    · cases h
    · split at h
      · exact .inl (mem_of_mem_if (c := true) (by decide) h)
      · obtain ⟨command, -, rfl⟩ := mem_map.mp h
        exact .inr (.inl ⟨command ++ ")", String.append_assoc ..⟩)
  · exact .inl (mem_of_mem_if (by decide) h)
  · exact .inl (mem_of_mem_if (by decide) h)
  · exact .inl (mem_of_mem_if (by decide) h)
  · split at h
    · cases h
    · split at h
      · exact .inl (mem_of_mem_if (c := true) (by decide) h)
      · obtain ⟨tool, -, rfl⟩ := mem_map.mp h
        exact .inr (.inr (.inl ⟨tool, rfl⟩))
  · exact .inl (mem_of_mem_if (by decide) h)
  · exact .inl (mem_of_mem_if (by decide) h)
  · exact .inl (mem_of_mem_if (by decide) h)
  · exact .inr (.inr (.inr h))

theorem mem_claudeTools_of_declared (h : entry ∈ w.tools.servers.flatMap claudeNames.entries) :
    entry ∈ claudeTools w := by
  unfold claudeTools
  rw [mem_sorted, mem_distinct]
  exact mem_append_right _ h

/-- Claude's list has a case for every server but two. -/
theorem lists_claude (w : Workflow) : claudeNames.Lists (claudeTools w) w where
  gitHub tool h := by
    by_cases hempty : tool.allowed = []
    · refine .inl ?_
      simp [claudeTools, mem_sorted, mem_distinct, claudeNames, h, hempty]
    · refine .inr ⟨hempty, fun t ht => ?_⟩
      have hmem : claudeNames.single "github" t ∈
          tool.allowed.map fun name => "mcp__github__" ++ name := mem_map.mpr ⟨t, ht, rfl⟩
      simp [claudeTools, mem_sorted, mem_distinct, h, hempty, hmem]
  browser h := by
    simp [claudeTools, mem_sorted, mem_distinct, claudeNames, h]
  language h := by
    simp [claudeTools, mem_sorted, mem_distinct, claudeNames, h]
  outputs h := by
    simp [claudeTools, mem_sorted, mem_distinct, claudeNames, h]
  declared name server h :=
    ToolNames.allow_of_entries (e := (name, server)) fun _ hentry =>
      mem_claudeTools_of_declared (mem_flatMap.mpr ⟨_, h, hentry⟩)
  whole name hname := by
    rw [← ToolNames.mem_entries_iff (append_left_injective _) (claudeNames_whole_ne_single hname)]
    refine ⟨fun h => ?_, mem_claudeTools_of_declared⟩
    have hother : ∀ name ∈ ["agentic_workflows", "safeinputs"],
        claudeNames.whole name ∉ claudeFixed ∧
        ¬"Bash(".toList <+: (claudeNames.whole name).toList ∧
        ¬"mcp__github__".toList <+: (claudeNames.whole name).toList := by
      decide +kernel
    obtain ⟨hfixed, hshell, hgitHub⟩ := hother name hname
    rcases claudeTools_cases h with hmem | ⟨command, heq⟩ | ⟨tool, heq⟩ | hdeclared
    · exact absurd hmem hfixed
    · exact absurd heq (ne_append_of_start hshell command)
    · exact absurd heq (ne_append_of_start hgitHub tool)
    · exact hdeclared

/-! ## Copilot -/

theorem exists_copilotNames_single (server tool : String) :
    ∃ rest, copilotNames.single server tool = "--allow-tool '" ++ rest :=
  ⟨server ++ ("(" ++ (tool ++ ")'")), by simp only [copilotNames, toString, String.append_assoc]⟩

/-- The arguments for Copilot's own tools and for built-in servers. -/
def copilotFixed : List String :=
  ["write", "github", "safeoutputs", "playwright", "serena", "web_fetch"].map ("--allow-tool " ++ ·)

theorem copilotTools_cases (hcommands : "*" ∉ w.tools.bash.getD []) (h : entry ∈ copilotTools w) :
    entry ∈ copilotFixed ∨ (∃ rest, entry = "--allow-tool '" ++ rest) ∨
      entry ∈ w.tools.servers.flatMap copilotNames.entries := by
  have honly : ∀ (server : String) (tools : List String),
      entry ∈ tools.map (copilotNames.single server) →
        ∃ rest, entry = "--allow-tool '" ++ rest := by
    intro server tools hentry
    obtain ⟨tool, -, rfl⟩ := mem_map.mp hentry
    exact exists_copilotNames_single server tool
  unfold copilotTools at h
  simp only [contains_eq_mem, hcommands, decide_false, Bool.false_eq_true, if_false,
    mem_append, or_assoc] at h
  rcases h with h | h | h | h | h | h | h | h
  · exact .inr (.inl (honly "shell" _ h))
  · exact .inl (mem_of_mem_if (by decide) h)
  · split at h
    · cases h
    · split at h
      · exact .inl (mem_of_mem_if (c := true) (by decide) h)
      · exact .inr (.inl (honly "github" _ h))
  · exact .inl (mem_of_mem_if (by decide) h)
  · exact .inr (.inr h)
  · exact .inl (mem_of_mem_if (by decide) h)
  · exact .inl (mem_of_mem_if (by decide) h)
  · exact .inl (mem_of_mem_if (by decide) h)

/-- An argument for a declared server starts like all others. -/
theorem exists_of_mem_entries (h : entry ∈ w.tools.servers.flatMap copilotNames.entries) :
    ∃ rest, entry = "--allow-tool " ++ rest := by
  obtain ⟨e, -, hentry⟩ := mem_flatMap.mp h
  unfold ToolNames.entries at hentry
  split at hentry
  · obtain ⟨tool, -, rfl⟩ := mem_map.mp hentry
    obtain ⟨rest, hrest⟩ := exists_copilotNames_single e.1 tool
    exact ⟨"'" ++ rest, by rw [hrest, ← String.append_assoc]; rfl⟩
  · exact ⟨e.1, mem_singleton.mp hentry⟩

theorem all_mem_copilotTools_iff :
    "--allow-all-tools" ∈ copilotTools w ↔ "*" ∈ w.tools.bash.getD [] := by
  constructor
  · intro h
    by_contra hcommands
    have hstart : ¬"--allow-tool ".toList <+: "--allow-all-tools".toList := by decide +kernel
    have hquoted : ¬"--allow-tool '".toList <+: "--allow-all-tools".toList := by decide +kernel
    rcases copilotTools_cases hcommands h with hmem | ⟨rest, heq⟩ | hdeclared
    · exact absurd hmem (by decide)
    · exact ne_append_of_start hquoted rest heq
    · obtain ⟨rest, heq⟩ := exists_of_mem_entries hdeclared
      exact ne_append_of_start hstart rest heq
  · intro h
    simp [copilotTools, h]

theorem mem_copilotTools_of_declared (hcommands : "*" ∉ w.tools.bash.getD [])
    (h : entry ∈ w.tools.servers.flatMap copilotNames.entries) : entry ∈ copilotTools w := by
  have hentries : (fun x : String × ToolServer =>
      if isNarrow x.2.allowed then x.2.allowed.map fun tool => s!"--allow-tool '{x.1}({tool})'"
      else ["--allow-tool " ++ x.1]) = copilotNames.entries := rfl
  simp only [copilotTools, contains_eq_mem, hcommands, decide_false, Bool.false_eq_true,
    if_false, mem_append, hentries, h, or_true, true_or]

/-- Copilot's arguments have a case for every server but two, unless all tools are allowed. -/
theorem lists_copilot (hcommands : "*" ∉ w.tools.bash.getD []) :
    copilotNames.Lists (copilotTools w) w where
  gitHub tool h := by
    by_cases hempty : tool.allowed = []
    · refine .inl ?_
      simp [copilotTools, copilotNames, h, hempty, hcommands]
    · refine .inr ⟨hempty, fun t ht => ?_⟩
      simp only [copilotTools, contains_eq_mem, hcommands, decide_false, Bool.false_eq_true,
        if_false, mem_append, h, List.isEmpty_iff, hempty]
      exact .inl (.inl (.inl (.inl (.inl (.inr (mem_map.mpr ⟨t, ht, rfl⟩))))))
  browser h := by simp [copilotTools, copilotNames, h, hcommands]
  language h := by simp [copilotTools, copilotNames, h, hcommands]
  outputs h := by simp [copilotTools, copilotNames, h, hcommands]
  declared name server h :=
    ToolNames.allow_of_entries (e := (name, server)) fun _ hentry =>
      mem_copilotTools_of_declared hcommands (mem_flatMap.mpr ⟨_, h, hentry⟩)
  whole name hname := by
    have hother : ∀ name ∈ ["agentic_workflows", "safeinputs"],
        copilotNames.whole name ∉ copilotFixed ∧
        ¬"--allow-tool '".toList <+: (copilotNames.whole name).toList := by
      decide +kernel
    obtain ⟨hfixed, hquoted⟩ := hother name hname
    have hsingle : ∀ server tool, copilotNames.whole name ≠ copilotNames.single server tool := by
      intro server tool
      obtain ⟨rest, hrest⟩ := exists_copilotNames_single server tool
      rw [hrest]
      exact ne_append_of_start hquoted rest
    rw [← ToolNames.mem_entries_iff (append_left_injective _) hsingle]
    refine ⟨fun h => ?_, mem_copilotTools_of_declared hcommands⟩
    rcases copilotTools_cases hcommands h with hmem | ⟨rest, heq⟩ | hdeclared
    · exact absurd hmem hfixed
    · exact absurd heq (ne_append_of_start hquoted rest)
    · exact hdeclared

/-! ## All servers -/

/-- **Which servers an agent may use.**

For every workflow and every server of its configuration, Claude may use the server unless it
is an overlooked one, and those exactly when the workflow declares a server of that name
without a restriction.  The same holds of Copilot, which may also use all servers when all
commands are allowed. -/
theorem servers_allowed_iff (w : Workflow) (name : String) :
    ((Mcp.servers w claude.profile.typesServers claude.profile.fetchesWeb).has name = true →
      (claudeNames.Allow (claudeTools w) name
          (Mcp.toolsOf w claude.profile.typesServers claude.profile.fetchesWeb name) ↔
        (name ∈ Mcp.overlooked w → Mcp.DeclaredWhole w name))) ∧
    ((Mcp.servers w copilot.profile.typesServers copilot.profile.fetchesWeb).has name = true →
      ("--allow-all-tools" ∈ copilotTools w ∨ copilotNames.Allow (copilotTools w) name
          (Mcp.toolsOf w copilot.profile.typesServers copilot.profile.fetchesWeb name) ↔
        (name ∈ Mcp.overlooked w →
          "*" ∈ w.tools.bash.getD [] ∨ Mcp.DeclaredWhole w name))) := by
  refine ⟨fun hserver => (lists_claude w).allow_iff hserver, fun hserver => ?_⟩
  rw [all_mem_copilotTools_iff]
  by_cases hcommands : "*" ∈ w.tools.bash.getD []
  · simp [hcommands]
  · simp only [hcommands, false_or]
    exact (lists_copilot hcommands).allow_iff hserver

/-- A workflow with some tools of the GitHub server, a declared server, and perhaps the server
that tells about workflows. -/
def servedSample (agenticWorkflows : Bool) : Workflow :=
  { name := "sample", source := Path.ofText "sample.md", body := "", on := [], engine := {}
    tools :=
      { github := some { allowed := ["get_issue", "list_issues"] }
        bash := some ["ls"]
        agenticWorkflows
        servers := [("files", { name := "files", container := "files", allowed := ["read"] })] }
    network := {}, permissions := .ofGrants [], checkouts := [], safeOutputs := none
    imports := {} }

/-- Some tools of the GitHub server are allowed, and of a declared server. -/
theorem servers_allowed_iff_gitHub :
    claudeNames.Allow (claudeTools (servedSample false)) "github" ["get_issue", "list_issues"] ∧
      copilotNames.Allow (copilotTools (servedSample false)) "files" ["read"] := by
  have hgitHub := (servers_allowed_iff (servedSample false) "github").1 (by decide +kernel)
  have hfiles := (servers_allowed_iff (servedSample false) "files").2 (by decide +kernel)
  have hnone : Mcp.overlooked (servedSample false) = [] := by decide
  have hall : "--allow-all-tools" ∉ copilotTools (servedSample false) := by decide +kernel
  rw [hnone] at hgitHub hfiles
  refine ⟨hgitHub.mpr fun h => ?_, (hfiles.mpr fun h => ?_).resolve_left hall⟩ <;> cases h

/-- The server that tells about workflows is set up, and neither agent may use it. -/
theorem agenticWorkflows_not_allowed :
    let w := servedSample true
    let name := "agentic_workflows"
    ((Mcp.servers w claude.profile.typesServers claude.profile.fetchesWeb).has name = true ∧
      ¬claudeNames.Allow (claudeTools w) name
        (Mcp.toolsOf w claude.profile.typesServers claude.profile.fetchesWeb name)) ∧
    (Mcp.servers w copilot.profile.typesServers copilot.profile.fetchesWeb).has name = true ∧
      ¬("--allow-all-tools" ∈ copilotTools w ∨ copilotNames.Allow (copilotTools w) name
        (Mcp.toolsOf w copilot.profile.typesServers copilot.profile.fetchesWeb name)) := by
  unfold ToolNames.Allow
  decide +kernel

end Engine

end FlowLock
