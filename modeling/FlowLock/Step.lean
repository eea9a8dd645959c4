import FlowLock.Context
import FlowLock.GitHubApp

/-!
# Steps

Steps that several jobs share.  A step is an ordered mapping that is written to
the lock file as it is built.
-/

namespace FlowLock.Step

def actionsDirectory : String := "/opt/gh-aw/actions"

def actionsSource : String := "/tmp/gh-aw/actions-source"

def outputDirectory : String := "/tmp/gh-aw/safeoutputs/"

def expression (inner : String) : String := "$\x7b\x7b " ++ inner ++ " \x7d\x7d"

def run (name script : String) : Value :=
  .obj [("name", .str name), ("run", .str script)]

def texts (entries : List (String × String)) : Value :=
  .obj (entries.map fun (key, text) => (key, .str text))

def textEntry (key text : String) : List (String × Value) :=
  if text.isEmpty then [] else [(key, .str text)]

/-- The steps that install the handler scripts. -/
def setup (ctx : Context) : Outcome (List Value) :=
  let byAction (uses : String) : Outcome (List Value) :=
    .ok [.obj [("name", .str "Setup Scripts"), ("uses", .str uses),
      ("with", texts [("destination", actionsDirectory)])]]
  match ctx.mode with
  | .script => do
    let checkout ← ctx.pin "actions/checkout"
    .ok
      [.obj
        [("name", .str "Checkout actions folder"),
         ("uses", .str checkout),
         ("with", .obj
          [("repository", .str ActionMode.setupRepository),
           ("sparse-checkout", .str "actions"),
           ("path", .str actionsSource),
           ("fetch-depth", .int 1),
           ("persist-credentials", .bool false)])],
       .obj
        [("name", .str "Setup Scripts"),
         ("run", .str s!"bash {actionsSource}/actions/setup/setup.sh"),
         ("env", texts [("INPUT_DESTINATION", actionsDirectory)])]]
  | .release => byAction s!"{ActionMode.setupRepository}/actions/setup@{ctx.config.compilerVersion}"
  | .dev => byAction "./actions/setup"

structure Script where
  name : String
  handler : String
  id : String := ""
  environment : Table Value := []
  token : String := ""
  call : String := "await main();"
  condition : String := ""

def scriptText (handler call : String) : String :=
  s!"const \x7b setupGlobals \x7d = require('{actionsDirectory}/setup_globals.cjs');\n" ++
  "setupGlobals(core, github, context, exec, io);\n" ++
  s!"const \x7b main \x7d = require('{actionsDirectory}/{handler}.cjs');\n" ++
  s!"{call}\n"

/-- A step that runs a handler script; a custom action that is registered for the
script replaces it.  The environment is written in the order of its names. -/
def script (ctx : Context) (s : Script) : Outcome Value := do
  let custom := ScriptRegistry.actionPath ctx.scripts s.handler
  let uses ← if custom.isEmpty then ctx.pin "actions/github-script" else .ok custom
  let inputs := textEntry "github-token" s.token ++
    (if custom.isEmpty then [("script", .str (scriptText s.handler s.call))] else [])
  .ok (.obj
    ([("name", .str s.name)] ++ textEntry "id" s.id ++ textEntry "if" s.condition ++
     [("uses", .str uses)] ++
     (if s.environment.isEmpty then [] else [("env", .obj s.environment.sorted)]) ++
     (if inputs.isEmpty then [] else [("with", .obj inputs)])))

def download (ctx : Context) (name artifact path : String) : Outcome Value := do
  let uses ← ctx.pin "actions/download-artifact"
  .ok (.obj [("name", .str name), ("continue-on-error", .bool true), ("uses", .str uses),
    ("with", texts [("name", artifact), ("path", path)])])

/-- Several paths in the spelling of an upload; there has to be one. -/
def pathList : List String → Outcome String
  | [] => .error .fatal
  | [path] => .ok path
  | paths => .ok (Text.unlines paths ++ "\n")

def upload (ctx : Context) (name artifact : String) (paths : List String)
    (ifNoFiles condition : String) : Outcome Value := do
  let uses ← ctx.pin "actions/upload-artifact"
  let path ← pathList paths
  .ok (.obj
    ([("name", .str name)] ++ textEntry "if" condition ++
     [("uses", .str uses),
      ("with", texts [("name", artifact), ("path", path), ("if-no-files-found", ifNoFiles)])]))

def agentOutput (ctx : Context) : Outcome (List Value) := do
  let fetch ← download ctx "Download agent output artifact" "agent-output" outputDirectory
  .ok [fetch, run "Setup agent output environment variable"
    (s!"mkdir -p {outputDirectory}\n" ++
     s!"find \"{outputDirectory}\" -type f -print\n" ++
     s!"echo \"GH_AW_AGENT_OUTPUT={outputDirectory}agent_output.json\" >> \"$GITHUB_ENV\"\n")]

def appToken (ctx : Context) (app : GitHubApp) (id name : String) : Outcome Value := do
  let uses ← ctx.pin "actions/create-github-app-token"
  let owner := if app.owner.isEmpty then expression "github.repository_owner" else app.owner
  let repositories :=
    if app.repositories.isEmpty then expression "github.event.repository.name"
    else ",".intercalate app.repositories
  .ok (.obj [("name", .str name), ("id", .str id), ("uses", .str uses),
    ("with", texts [("app-id", app.appId), ("private-key", app.privateKey), ("owner", owner),
      ("repositories", repositories), ("github-api-url", expression "github.api_url")])])

def appTokenName : String := "Generate GitHub App token"

/-- A shell command that writes a text to a file.  The delimiter is quoted, so the
shell leaves the text alone up to the first line that equals the delimiter. -/
def heredoc (path text delimiter : String) : String :=
  let body := if Text.endsWith text "\n" then text else text ++ "\n"
  s!"cat << '{delimiter}' > \"{path}\"\n{body}{delimiter}\n"

def heredocDelimiter : String := "GH_AW_EOF"

end FlowLock.Step
