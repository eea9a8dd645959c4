import FlowLock.Setting

/-!
# Tool servers

Servers that a workflow declares itself.  A server is started by a command or in a
container and spoken to through its standard streams, or it is reached by a URL.
-/

namespace FlowLock

open Entries

inductive Transport where
  | stdio
  | http
deriving Repr, DecidableEq, Inhabited

def Transport.name : Transport → String
  | .stdio => "stdio"
  | .http => "http"

structure ToolServer where
  name : String
  transport : Transport := .stdio
  container : String := ""
  command : String := ""
  args : List String := []
  environment : Table String := []
  url : String := ""
  headers : Table String := []
  /-- The allowed tools; all of them when empty. -/
  allowed : List String := []
  /-- Mounts of the container, as they were declared. -/
  mounts : List Value := []
  port : Value := .null
deriving Repr, Inhabited

namespace ToolServer

def readTransport (place word : String) : Outcome Transport :=
  if word == "stdio" || word == "local" then .ok .stdio
  else if word == "http" then .ok .http
  else
    .error (.schema (place ++ ".type")
      (.mustBe (place ++ ".type") (.either "stdio" "http") (some s!"'{word}'")))

/-- The mounts of a setting; what counts as not set is none. -/
def parseMounts (place : String) (v : Value) : Outcome (List Value) :=
  if !v.truthy then .ok []
  else match v.items? with
    | some mounts => .ok mounts
    | none => .error (.mustBe (place ++ ".mounts") .array none)

def parse (name : String) (v : Value) : Outcome ToolServer := do
  let place := "tools." ++ name
  let es ← Setting.object v place
  let textAt (key default : String) : Outcome String :=
    Setting.text (getD es key) (place ++ "." ++ key) default
  let url ← textAt "url" ""
  let transport ← readTransport place (← textAt "type" (if url.isEmpty then "stdio" else "http"))
  let container ← textAt "container" ""
  let command ← textAt "command" ""
  if transport == .stdio && container.isEmpty && command.isEmpty then
    .error (.schema place (.serverWithoutCommand place))
  else if transport == .http && url.isEmpty then
    .error (.schema (place ++ ".url") (.serverWithoutUrl place))
  else
    let mounts ← parseMounts place (getD es "mounts")
    let args ← Setting.texts (getD es "args") (place ++ ".args")
    let environment ← Setting.environment (getD es "env") (place ++ ".env")
    let headers ← Setting.environment (getD es "headers") (place ++ ".headers")
    let allowed ← Setting.texts (getD es "allowed") (place ++ ".allowed")
    .ok { name, transport, container, command, args, environment, url, headers, allowed, mounts,
          port := getD es "port" }

end ToolServer

end FlowLock
