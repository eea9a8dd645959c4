import FlowLock.Proofs.Mcp.Render
import FlowLock.Proofs.Table

/-!
# Which servers are written, and how

The servers of a workflow are the built-in ones and then the declared ones, each at a
name that is still free.  A declared server is written with the settings by which it is
reached or started.
-/

namespace FlowLock.Mcp

open Text Table Step List

/-- A declared server that is written: the first of its name, which no built-in server
has. -/
def Writes (w : Workflow) (typed fetches : Bool) (name : String) (server : ToolServer) : Prop :=
  (builtIn w typed fetches).get? name = none ∧ w.tools.servers.get? name = some server

variable {w : Workflow} {typed fetches : Bool} {name : String} {server : ToolServer}
  {e : String × String}

theorem Writes.get?_servers (h : Writes w typed fetches name server) :
    (servers w typed fetches).get? name = some (declared typed server) := by
  rw [servers, get?_addNew, h.1, h.2]
  rfl

/-! ## The settings of a declared server -/

theorem transport_cases (server : ToolServer) :
    server.transport = .stdio ∨ server.transport = .http := by
  cases server.transport <;> simp

theorem reach_of_http (server : ToolServer) (h : server.transport = .http) :
    reach server = [("url", .str server.url)] ++
      (if server.headers.isEmpty then []
       else [("headers", texts (sorted server.headers))]) := by
  rw [reach, h]

theorem reach_of_stdio (server : ToolServer) (h : server.transport = .stdio) : reach server =
      textEntry "container" server.container ++ textEntry "command" server.command ++
      listEntry "args" (server.args.map .str) ++ listEntry "mounts" server.mounts ++
      environmentEntry (sorted (serverEnvironment server)) := by
  rw [reach, h]

theorem exists_declared (typed : Bool) (server : ToolServer) :
    ∃ settings, declared typed server = .obj settings ∧ reach server ⊆ settings := by
  refine ⟨_, rfl, ?_⟩
  intro e he
  exact mem_append_left _ (mem_append_right _ he)

theorem mem_reach_headers (h : server.transport = .http) (he : e ∈ server.headers) :
    ("headers", texts (sorted server.headers)) ∈ reach server := by
  rw [reach_of_http server h, isEmpty_eq_false_iff.mpr (ne_nil_of_mem he),
    if_neg Bool.false_ne_true]
  exact mem_append_right _ mem_cons_self

theorem mem_reach_environment (h : server.transport = .stdio)
    (he : e ∈ sorted (serverEnvironment server)) :
    ("env", texts (sorted (serverEnvironment server))) ∈ reach server := by
  rw [reach_of_stdio server h, environmentEntry,
    isEmpty_eq_false_iff.mpr (ne_nil_of_mem he), if_neg Bool.false_ne_true]
  exact mem_append_right _ mem_cons_self

theorem holds_texts {t : Table String} (he : e ∈ t) : (texts t).Holds e.2 :=
  .obj (mem_map_of_mem he) .str

theorem holds_declared (typed : Bool) {key : String} {t : Table String}
    (hreach : (key, texts t) ∈ reach server) (he : e ∈ t) :
    (declared typed server).Holds e.2 := by
  obtain ⟨settings, hsettings, hsubset⟩ := exists_declared typed server
  rw [hsettings]
  exact .obj (hsubset hreach) (holds_texts he)

theorem Writes.within_text {toml : Bool} {text s : String} (h : Writes w typed fetches name server)
    (htext : configText w toml typed fetches = .ok text) (hs : (declared typed server).Holds s) :
    Within (Json.quote s) text :=
  quote_within_configText htext (mem_of_get? h.get?_servers) hs

end FlowLock.Mcp
