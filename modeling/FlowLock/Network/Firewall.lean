import FlowLock.Network.Access
import FlowLock.Step
import FlowLock.Text.Shell

/-!
# The firewall in a job

The steps that install the firewall and keep its logs, and the command line that
runs the agent behind it.
-/

namespace FlowLock.Network

def logsDirectory : String := "/tmp/gh-aw/sandbox/firewall/logs"

def isArtifactChar (c : Char) : Bool :=
  ('a' ≤ c && c ≤ 'z') || Text.isAsciiDigit c || c == '.' || c == '_' || c == '-'

/-- A list of characters with a hyphen in place of each run of characters that cannot
stand in the name of an artifact.  `inRun` says that the last one could not. -/
def hyphenate : Bool → List Char → List Char
  | _, [] => []
  | inRun, c :: cs =>
    if isArtifactChar c then c :: hyphenate false cs
    else if inRun then hyphenate true cs
    else '-' :: hyphenate true cs

def artifactName (name : String) : String :=
  Text.trimWhere (· == '-') (String.ofList (hyphenate false (Text.lower name).toList))

def installStep (version : String) : Value :=
  Step.run "Install awf binary" s!"bash /opt/gh-aw/actions/install_awf_binary.sh {version}"

def wrapCommand (command : String) (domains : List String) (logLevel : String) : String :=
  " ".intercalate
    ["sudo -E awf",
     "--env-all",
     "--container-workdir \"$\x7bGITHUB_WORKSPACE\x7d\"",
     "--mount /tmp:/tmp:rw",
     "--mount \"$\x7bGITHUB_WORKSPACE\x7d:$\x7bGITHUB_WORKSPACE\x7d:rw\"",
     "--allow-domains " ++ ",".intercalate domains,
     "--log-level " ++ (if logLevel.isEmpty then "info" else logLevel),
     "--proxy-logs-dir " ++ logsDirectory] ++
  " \\\n  -- " ++ Text.shellWord command

def logSteps (ctx : Context) (workflow : String) : Outcome (List Value) := do
  let uses ← ctx.pin "actions/upload-artifact"
  .ok
    [.obj
      [("name", .str "Upload Firewall Logs"),
       ("if", .str "always()"),
       ("continue-on-error", .bool true),
       ("uses", .str uses),
       ("with", Step.texts
        [("name", "firewall-logs-" ++ artifactName workflow),
         ("path", logsDirectory ++ "/"),
         ("if-no-files-found", "ignore")])],
     .obj
      [("name", .str "Print firewall logs"),
       ("if", .str "always()"),
       ("continue-on-error", .bool true),
       ("env", Step.texts [("AWF_LOGS_DIR", logsDirectory)]),
       ("run", .str
        ("# AWF runs with sudo, so its log files are owned by root\n" ++
         s!"sudo chmod -R a+r {logsDirectory} 2>/dev/null || true\n" ++
         "if command -v awf &> /dev/null; then\n" ++
         "  awf logs summary | tee -a \"$GITHUB_STEP_SUMMARY\"\n" ++
         "else\n" ++
         "  echo 'AWF binary not installed, skipping firewall log summary'\n" ++
         "fi\n"))]]

end FlowLock.Network
