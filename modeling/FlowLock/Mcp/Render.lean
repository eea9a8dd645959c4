import FlowLock.Table
import FlowLock.Template

/-!
# The configuration of servers as text

Agents read the configuration of their servers as JSON or as TOML.
-/

namespace FlowLock.Mcp

def renderJson (servers : Table Value) : Outcome String :=
  orFatal (Json.encode? Json.indented (.obj [("mcpServers", .obj servers)]))

def tomlList (items : List String) : String :=
  if items.isEmpty then "[]"
  else "[\n" ++ String.join (items.map fun item => "  " ++ item ++ ",\n") ++ "]"

mutual

/-- A value in TOML; what TOML has no form for is written as its text. -/
def tomlValue : Value → String
  | .bool b => Template.ofBool b
  | .int n => toString n
  | .list xs => tomlList (tomlItems xs)
  | .pair a b => tomlList [tomlValue a, tomlValue b]
  | .map es => "\x7b " ++ ", ".intercalate (tomlEntries es) ++ " \x7d"
  | v => Json.quote v.plain
termination_by structural v => v

def tomlItems : List Value → List String
  | [] => []
  | x :: xs => tomlValue x :: tomlItems xs
termination_by structural xs => xs

def tomlEntries : List (Value × Value) → List String
  | [] => []
  | e :: es => tomlEntry e :: tomlEntries es
termination_by structural es => es

def tomlEntry : Value × Value → String
  | (k, v) => Json.quote k.plain ++ " = " ++ tomlValue v
termination_by structural e => e

end

/-- Whether a key can stand in TOML without quotes. -/
def isBareKey (key : String) : Bool :=
  !key.isEmpty && key.toList.all fun c =>
    Text.isAsciiLetter c || Text.isAsciiDigit c || c == '_' || c == '-'

def tomlKey (key : String) : String := if isBareKey key then key else Json.quote key

def isNested (e : Value × Value) : Bool :=
  (e.1.isStr "env" || e.1.isStr "headers") && e.2.entries?.isSome

/-- The line of an entry in a nested table, whose key has to be a text. -/
def nestedLine (e : Value × Value) : Outcome String :=
  match e.1 with
  | .str key => .ok (tomlKey key ++ " = " ++ tomlValue e.2)
  | _ => .error .fatal

def nestedLines (server : String) (e : Value × Value) : Outcome (List String) := do
  let entries ← (e.2.entries?.getD []).mapM nestedLine
  .ok (["", s!"[mcp_servers.\"{server}\".{e.1.plain}]"] ++ entries)

def serverLines (server : String × Value) : Outcome (List String) :=
  match server.2 with
  | .map es => do
    let own := (es.filter fun e => !isNested e).map fun e => e.1.plain ++ " = " ++ tomlValue e.2
    let nested ← (es.filter isNested).mapM (nestedLines server.1)
    .ok (["", s!"[mcp_servers.\"{server.1}\"]"] ++ own ++ nested.flatten)
  | _ => .error .fatal

/-- The servers as TOML.  Settings that hold themselves are fatal. -/
def renderToml (servers : Table Value) : Outcome String := do
  let tables ← servers.mapM serverLines
  if servers.all fun s => s.2.isFinite then
    .ok (Text.unlines (["[history]", "persistence = \"none\""] ++ tables.flatten) ++ "\n")
  else .error .fatal

end FlowLock.Mcp
