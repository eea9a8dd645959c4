import FlowLock.Engine.Run
import FlowLock.Proofs.Mcp.Secrets
import FlowLock.Proofs.Step

/-!
# Which value a server gets through a variable

A server that is started gets a reference to a variable in the place of an expression,
and the step that runs the agent sets the variable.  The name of the variable is made of
the names of the server and of the key, but not one to one: letters lose their case and
every other character becomes an underscore.  Where two names fall together the value
that was declared last is set, and both servers get it.
-/

namespace FlowLock

open Table Step Secret

/-! ## Looking into steps and settings -/

namespace Mcp

variable {w : Workflow} {name : String} {server : ToolServer} {key v : String}

theorem get?_listEntry {other : String} (h : key ≠ other) (values : List Value) :
    get? (listEntry key values) other = none := by
  rw [listEntry]
  split
  · rfl
  · rw [get?_cons, if_neg h]; rfl

theorem environmentEntry_of_get? {t : Table String} (h : t.get? key = some v) :
    environmentEntry t = [("env", texts t)] := by
  rw [environmentEntry, if_neg]
  rw [List.isEmpty_iff]
  exact List.ne_nil_of_mem (mem_of_get? h)

theorem get?_env_declared (typed : Bool) (h : server.transport = .stdio)
    (hkey : (sorted (serverEnvironment server)).get? key = some v) :
    ∃ settings, declared typed server = .obj settings ∧
      get? settings "env" = some (texts (sorted (serverEnvironment server))) := by
  refine ⟨_, rfl, ?_⟩
  have hkind : get? (if typed = true then
      [("type", Value.str (if server.transport == .http then "http" else "local"))] else [])
      "env" = none := by
    cases typed <;> rfl
  rw [get?_append, get?_append, hkind, Option.none_or, reach_of_stdio server h,
    get?_append, get?_append, get?_append, get?_append,
    get?_textEntry (by decide), get?_textEntry (by decide), get?_listEntry (by decide),
    get?_listEntry (by decide), environmentEntry_of_get? hkey]
  rfl

theorem get?_serverEnvironment (hkey : server.environment.get? key = some v)
    (hv : hasExpression v) :
    (serverEnvironment server).get? key =
      some (reference (carrier server.name key)) := by
  rw [serverEnvironment]
  revert hkey
  induction server.environment with
  | nil => intro h; cases h
  | cons e t ih =>
    rw [List.map_cons, get?_cons, get?_cons]
    by_cases hkey : e.1 = key
    · rw [if_pos hkey, if_pos hkey]
      intro h
      rw [Option.some.inj h, if_pos hv, hkey]
    · rw [if_neg hkey, if_neg hkey]
      exact ih

/-! ## The variables of the step -/

/-- The expressions that the declared servers ask for, each under its variable, in the
order of the declarations. -/
def handed (w : Workflow) : Table String := w.tools.servers.values.flatMap carriedBy

theorem mem_handed {d : String × String} :
    d ∈ handed w ↔ ∃ server ∈ w.tools.servers.values, ∃ e ∈ server.environment,
      hasExpression e.2 ∧ (carrier server.name e.1, e.2) = d := by
  simp only [handed, carriedBy, List.mem_flatMap, List.mem_map, List.mem_filter, and_assoc]

/-- A variable that is handed over has the value that was declared last, when the
workflow sets nothing else. -/
theorem get?_secretEnvironment (hinputs : ∀ t ∈ w.safeInputs, t.environment = []) {carrier : String}
    (h : (handed w).last? carrier = some v) : (secretEnvironment w).get? carrier = some v := by
  have hnone : w.safeInputs.flatMap (·.environment) = [] := List.flatMap_eq_nil_iff.mpr hinputs
  rw [secretEnvironment, hnone, get?_update, get?_update, ← handed, h]
  rfl

theorem nodup_keys_secretEnvironment (w : Workflow) : (keys (secretEnvironment w)).Nodup := by
  refine nodup_keys_update (nodup_keys_update ?_ _) _
  split
  · exact List.pairwise_singleton _ _
  · exact List.nodup_nil

end Mcp

theorem Secret.isAllowed_of_mem {allowed : List String} {key : String} (h : key ∈ allowed)
    (text : String) : isAllowed allowed key text := by
  have hkey : allowed.contains key := List.contains_iff_mem.mpr h
  rw [isAllowed, hkey]
  split
  · rfl
  · split
    · rfl
    · exact Bool.or_true _

namespace Engine

variable {e : Engine} {w : Workflow} {ctx : Context}

/-- The step that runs an agent sets every variable that is handed to a server: the
secrets that servers need get through. -/
theorem get?_environment (hengine : w.engine.environment = [])
    (hinputs : ∀ t ∈ w.safeInputs, t.environment = []) {carrier v : String}
    (h : (Mcp.handed w).last? carrier = some v) : (e.environment w).get? carrier = some v := by
  have hset := Mcp.get?_secretEnvironment hinputs h
  have hallowed : carrier ∈ keys (Mcp.secretEnvironment w) :=
    mem_keys_of_mem (mem_of_get? hset)
  have hlast : (Mcp.secretEnvironment w).last? carrier = some v := by
    rw [last?_eq_get? (Mcp.nodup_keys_secretEnvironment w), hset]
  rw [environment, hengine, filter, get?_filter, get?_update, get?_update, hlast]
  · rfl
  · intro d _ hd
    refine isAllowed_of_mem ?_ d.2
    rw [hd]
    exact List.mem_append_left _ (List.mem_append_right _ hallowed)

theorem runSteps_eq_ok (he : e ≠ .custom) {steps : List Value} {warnings : List Warning}
    (h : e.runSteps w ctx = .ok (steps, warnings)) :
    ∃ logs, steps = scriptStep e.runName "agentic_execution"
      [("timeout-minutes", .int w.timeoutMinutes)] (e.runScript w) (e.environment w) :: logs := by
  rw [runSteps.eq_2 _ _ _ he] at h
  split at h <;>
  · obtain ⟨logs, -, h⟩ := Outcome.bind_eq_ok.mp h
    obtain ⟨rfl, -⟩ := Prod.mk.inj (Except.ok.inj h)
    exact ⟨logs, rfl⟩

theorem exists_scriptStep (name id script : String) (limit : Int) {environment : Table String}
    {key v : String} (h : environment.get? key = some v) :
    ∃ step, scriptStep name id [("timeout-minutes", .int limit)] script environment = .obj step ∧
      get? step "env" = some (texts (sorted environment)) := by
  have hsorted : (sorted environment).get? key = some v := by rw [get?_sorted, h]
  refine ⟨_, rfl, ?_⟩
  rw [get?_append, Mcp.environmentEntry_of_get? hsorted]
  rfl

end Engine

namespace Mcp

section

variable {e : Engine} {w : Workflow} {ctx : Context} {steps : List Value}
  {warnings : List Warning} {name : String} {server : ToolServer} {key v : String}
  (he : e ≠ .custom) (hengine : w.engine.environment = [])
  (hinputs : ∀ t ∈ w.safeInputs, t.environment = [])
  (hrun : e.runSteps w ctx = .ok (steps, warnings))
  (hwrites : Writes w e.profile.typesServers e.profile.fetchesWeb name server)
  (hstdio : server.transport = .stdio) (hkey : server.environment.get? key = some v)
  (hv : hasExpression v)
include he hengine hinputs hrun hwrites hstdio hkey hv

/-- The two ends of a variable: the settings of the server refer to it, and the step sets
it to the last expression that is handed over under its name. -/
theorem exists_wiring :
    ∃ (settings step : Table Value) (environment given : Table String),
      (servers w e.profile.typesServers e.profile.fetchesWeb).get? name = some (.obj settings) ∧
      get? settings "env" = some (texts environment) ∧
      environment.get? key = some (reference (carrier server.name key)) ∧
      steps.head? = some (.obj step) ∧
      get? step "env" = some (texts given) ∧
      ∃ last, (handed w).last? (carrier server.name key) = some last ∧
        given.get? (carrier server.name key) = some last := by
  have hserver : server ∈ w.tools.servers.values :=
    List.mem_map_of_mem (mem_of_get? hwrites.2)
  have hmem : (carrier server.name key, v) ∈ handed w :=
    mem_handed.mpr ⟨server, hserver, (key, v), mem_of_get? hkey, hv, rfl⟩
  -- The variable is set, as the expression of this very key is handed over under it.
  obtain ⟨last, hlast⟩ : ∃ last, (handed w).last? (carrier server.name key) = some last := by
    refine Option.ne_none_iff_exists'.mp ?_
    rw [ne_eq, last?_eq_none_iff]
    exact not_not_intro (mem_keys_of_mem hmem)
  have hget := Engine.get?_environment (e := e) hengine hinputs hlast
  have henvironment := get?_serverEnvironment hkey hv
  rw [← get?_sorted] at henvironment
  obtain ⟨settings, hsettings, henv⟩ := get?_env_declared e.profile.typesServers hstdio henvironment
  obtain ⟨logs, rfl⟩ := Engine.runSteps_eq_ok he hrun
  obtain ⟨step, hstep, hset⟩ :=
    Engine.exists_scriptStep e.runName "agentic_execution" (e.runScript w) w.timeoutMinutes hget
  refine ⟨settings, step, _, _, ?_, henv, henvironment, ?_, hset, last, hlast, ?_⟩
  · rw [hwrites.get?_servers, hsettings]
  · rw [hstep]; rfl
  · rw [get?_sorted, hget]

/-- **What a server gets through a variable.**  A written server that is started has, at
each key with an expression, the reference to a variable, and the step that runs the
agent sets this variable: to the expression of some declared server and key whose
variable has the same name, and to the expression of the key itself exactly when it is
the last one that is handed over under this name. -/
theorem server_gets_last_handed :
    ∃ (settings step : Table Value) (environment given : Table String),
      (servers w e.profile.typesServers e.profile.fetchesWeb).get? name =
        some (.obj settings) ∧
      get? settings "env" = some (texts environment) ∧
      environment.get? key = some (reference (carrier server.name key)) ∧
      steps.head? = some (.obj step) ∧
      get? step "env" = some (texts given) ∧
      (given.get? (carrier server.name key) = some v ↔
        ∃ before after, handed w = before ++ (carrier server.name key, v) :: after ∧
          carrier server.name key ∉ keys after) ∧
      ∃ other ∈ w.tools.servers.values, ∃ d ∈ other.environment,
        hasExpression d.2 = true ∧
        carrier other.name d.1 = carrier server.name key ∧
        given.get? (carrier server.name key) = some d.2 := by
  obtain ⟨settings, step, environment, given, hsettings, henv, href, hstep, hset, last, hlast,
    hgiven⟩ := exists_wiring he hengine hinputs hrun hwrites hstdio hkey hv
  refine ⟨settings, step, environment, given, hsettings, henv, href, hstep, hset, ?_, ?_⟩
  · rw [hgiven, ← hlast, last?_eq_some_iff]
  · obtain ⟨other, hother, d, hd, hexpression, heq⟩ := mem_handed.mp (mem_of_last? hlast)
    obtain ⟨hcarrier, rfl⟩ := Prod.mk.inj heq
    exact ⟨other, hother, d, hd, hexpression, hcarrier, hgiven⟩

end

/-- Two servers with names that differ in a hyphen only, and one with another name. -/
def storesSample : Workflow :=
  declaring
    [("file-store", { name := "file-store", command := "serve"
                      environment := [("token", "$\x7b\x7b secrets.A \x7d\x7d")] }),
     ("file_store", { name := "file_store", command := "serve"
                      environment := [("token", "$\x7b\x7b secrets.B \x7d\x7d")] }),
     ("search", { name := "search", command := "find"
                  environment := [("key", "$\x7b\x7b secrets.KEY \x7d\x7d"), ("depth", "3")] })]

theorem runSteps_storesSample :
    ∃ steps warnings, Engine.claude.runSteps storesSample {} = .ok (steps, warnings) := by
  obtain ⟨⟨steps, warnings⟩, h⟩ : ∃ built, Engine.claude.runSteps storesSample {} = .ok built := by
    decide
  exact ⟨steps, warnings, h⟩

theorem handed_storesSample : handed storesSample =
    [("MCP_FILE_STORE_TOKEN", "$\x7b\x7b secrets.A \x7d\x7d"),
     ("MCP_FILE_STORE_TOKEN", "$\x7b\x7b secrets.B \x7d\x7d"),
     ("MCP_SEARCH_KEY", "$\x7b\x7b secrets.KEY \x7d\x7d")] := by
  decide

theorem server_gets_last_handed_search :
    ∃ (steps : List Value) (warnings : List Warning) (settings step : Table Value)
        (environment given : Table String),
      Engine.claude.runSteps storesSample {} = .ok (steps, warnings) ∧
      (servers storesSample false true).get? "search" = some (.obj settings) ∧
      get? settings "env" = some (texts environment) ∧
      environment.get? "key" = some "$\x7bMCP_SEARCH_KEY\x7d" ∧
      steps.head? = some (.obj step) ∧ get? step "env" = some (texts given) ∧
      given.get? "MCP_SEARCH_KEY" = some "$\x7b\x7b secrets.KEY \x7d\x7d" := by
  obtain ⟨steps, warnings, hrun⟩ := runSteps_storesSample
  have hwrites : Writes storesSample false true "search" _ := ⟨by decide, rfl⟩
  have hkey : get? [("key", "$\x7b\x7b secrets.KEY \x7d\x7d"), ("depth", "3")] "key" =
      some "$\x7b\x7b secrets.KEY \x7d\x7d" := by decide
  obtain ⟨settings, step, environment, given, hsettings, henv, href, hstep, hset, hown, -⟩ :=
    server_gets_last_handed (by decide) rfl (by decide) hrun hwrites rfl hkey
      (by decide)
  have hcarrier : carrier "search" "key" = "MCP_SEARCH_KEY" := by decide
  rw [hcarrier] at href hown
  refine ⟨steps, warnings, settings, step, environment, given, hrun, hsettings, henv, href, hstep,
    hset, hown.mpr ?_⟩
  exact ⟨[_, _], [], handed_storesSample, List.not_mem_nil⟩

/-- A server gets the secret of another one whose name differs in a hyphen. -/
theorem server_gets_foreign_value :
    ∃ (steps : List Value) (warnings : List Warning) (settings step : Table Value)
        (environment given : Table String),
      Engine.claude.runSteps storesSample {} = .ok (steps, warnings) ∧
      (servers storesSample false true).get? "file-store" = some (.obj settings) ∧
      get? settings "env" = some (texts environment) ∧
      environment.get? "token" = some "$\x7bMCP_FILE_STORE_TOKEN\x7d" ∧
      steps.head? = some (.obj step) ∧ get? step "env" = some (texts given) ∧
      given.get? "MCP_FILE_STORE_TOKEN" = some "$\x7b\x7b secrets.B \x7d\x7d" := by
  obtain ⟨steps, warnings, hrun⟩ := runSteps_storesSample
  have hwrites : Writes storesSample false true "file-store" _ := ⟨by decide, rfl⟩
  have hkey : get? [("token", "$\x7b\x7b secrets.A \x7d\x7d")] "token" =
      some "$\x7b\x7b secrets.A \x7d\x7d" := by decide
  obtain ⟨settings, step, environment, given, hsettings, henv, href, hstep, hset, last, hlast,
    hgiven⟩ := exists_wiring (by decide) rfl (by decide) hrun hwrites rfl hkey
      (by decide)
  have hcarrier : carrier "file-store" "token" = "MCP_FILE_STORE_TOKEN" := by decide
  rw [hcarrier] at href hlast hgiven
  have hforeign : (handed storesSample).last? "MCP_FILE_STORE_TOKEN" =
      some "$\x7b\x7b secrets.B \x7d\x7d" := by
    rw [handed_storesSample]
    decide
  refine ⟨steps, warnings, settings, step, environment, given, hrun, hsettings, henv, href, hstep,
    hset, ?_⟩
  rw [hgiven, ← hlast, hforeign]

end Mcp

end FlowLock
