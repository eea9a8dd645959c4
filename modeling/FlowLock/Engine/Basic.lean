import FlowLock.Error
import FlowLock.Text.CaseMap
import FlowLock.Text.Number

/-!
# Engines

The programs that can run an agent, and what is to be known about each.  One engine
is no program: there the workflow brings its own steps.
-/

namespace FlowLock

inductive Engine where
  | copilot
  | claude
  | codex
  | gemini
  | custom
deriving Repr, DecidableEq, Inhabited

namespace Engine

structure Profile where
  id : String
  name : String
  package : String := ""
  secrets : List String := []
  docs : String := ""
  usesToml : Bool := false
  /-- Whether it wants to be told the types and tools of its servers. -/
  typesServers : Bool := false
  domains : List String := []
  supportsFirewall : Bool := true
  fetchesWeb : Bool := false
  supportsAllowlist : Bool := true
  isExperimental : Bool := false

def all : List Engine := [.copilot, .claude, .codex, .gemini, .custom]

def docsPage : String := "https://githubnext.github.io/gh-aw/reference/engines/"

def profile : Engine → Profile
  | .copilot =>
    { id := "copilot"
      name := "GitHub Copilot CLI"
      package := "@github/copilot"
      secrets := ["COPILOT_GITHUB_TOKEN"]
      docs := docsPage ++ "#github-copilot-default"
      typesServers := true
      domains :=
        ["api.business.githubcopilot.com", "api.enterprise.githubcopilot.com",
         "api.github.com", "api.githubcopilot.com", "api.individual.githubcopilot.com",
         "github.com", "host.docker.internal", "raw.githubusercontent.com",
         "registry.npmjs.org"]
      fetchesWeb := true }
  | .claude =>
    { id := "claude"
      name := "Claude Code"
      package := "@anthropic-ai/claude-code"
      secrets := ["CLAUDE_CODE_OAUTH_TOKEN", "ANTHROPIC_API_KEY"]
      docs := docsPage ++ "#anthropic-claude-code"
      domains :=
        ["anthropic.com", "api.anthropic.com", "api.github.com", "github.com",
         "registry.npmjs.org", "sentry.io", "statsig.anthropic.com"]
      fetchesWeb := true }
  | .codex =>
    { id := "codex"
      name := "Codex"
      package := "@openai/codex"
      secrets := ["CODEX_API_KEY", "OPENAI_API_KEY"]
      docs := docsPage ++ "#openai-codex"
      usesToml := true
      domains :=
        ["api.github.com", "api.openai.com", "github.com", "openai.com", "registry.npmjs.org"] }
  | .gemini =>
    { id := "gemini"
      name := "Google Gemini CLI"
      package := "@google/gemini-cli"
      secrets := ["GEMINI_API_KEY"]
      docs := docsPage ++ "#google-gemini-cli"
      domains :=
        ["api.github.com", "generativelanguage.googleapis.com", "github.com",
         "registry.npmjs.org"]
      isExperimental := true }
  | .custom =>
    { id := "custom"
      name := "Custom Steps"
      supportsFirewall := false
      supportsAllowlist := false }

def id (e : Engine) : String := e.profile.id

def modelVariable (e : Engine) : String := "GH_AW_MODEL_AGENT_" ++ Text.upper e.id

/-- Whether a text has the form of an identifier: a small letter, then small letters,
digits, hyphens and underscores. -/
def isIdentifier (s : String) : Bool :=
  match s.toList with
  | [] => false
  | c :: cs =>
    let isSmall (c : Char) : Bool := 'a' ≤ c && c ≤ 'z'
    isSmall c && cs.all fun c => isSmall c || Text.isAsciiDigit c || c == '_' || c == '-'

/-- Names of the same form that stand for parts of the engine layer. -/
def reserved : List String := ["base", "mcp"]

/-- The engine that an identifier stands for, blanks around it apart. -/
def read (text : String) : Outcome Engine :=
  let name := Text.trim text
  if !isIdentifier name then .error (.schema "engine" (.invalidEngineId text))
  else
    match all.find? fun e => e.id == name with
    | some engine => .ok engine
    | none =>
      if reserved.contains name then
        .error (.schema "engine"
          (.noEngine ("aw_compiler.compiler.engines." ++ name) (Text.capitalize name ++ "Engine")))
      else .error (.schema "engine" (.unknownEngine name))

end Engine

end FlowLock
