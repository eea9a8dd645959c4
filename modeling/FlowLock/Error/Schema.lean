/-!
# Refused settings

Why a setting in front matter is refused before any check of its meaning: it has
the wrong kind, it is not one of the known words, or a part is missing.  Every
cause has its wording here, so no other module composes a message.
-/

namespace FlowLock

inductive Expectation where
  | string
  | boolean
  | integer
  | kilobytes
  | mapping
  | object
  | array
  | steps
  | level
  | stringOrBoolean
  | strings
  | stringsOrObjects
  | objectOrObjects
  | stringOrPathObject
  | stringArrayOrObject
  | stringFalseOrObject
  | mappingNullOrFalse
  | mappingOrShorthand
  | integerOrExpression
  | stringOrIssueNumber
  | duration
  /-- Something that an expression may stand for. -/
  | templated (plain : Expectation)
  | either (first second : String)
  | oneOf (words : List String)
deriving Repr, DecidableEq

def Expectation.text : Expectation → String
  | .string => "a string"
  | .boolean => "a boolean"
  | .integer => "an integer"
  | .kilobytes => "an integer (KB)"
  | .mapping => "a mapping"
  | .object => "an object"
  | .array => "an array"
  | .steps => "an array of steps"
  | .level => "a string level"
  | .stringOrBoolean => "a string or boolean"
  | .strings => "a string or an array of strings"
  | .stringsOrObjects => "an array of strings or objects"
  | .objectOrObjects => "an object or an array of objects"
  | .stringOrPathObject => "a string or an object with 'path' field"
  | .stringArrayOrObject => "a string, array or object"
  | .stringFalseOrObject => "a string, false or an object"
  | .mappingNullOrFalse => "a mapping, null or false"
  | .mappingOrShorthand => "a mapping or one of 'read-all', 'write-all'"
  | .integerOrExpression => "an integer or an expression"
  | .stringOrIssueNumber => "a string or an issue number"
  | .duration => "a number of days or a duration like '24h', '7d', '2w'"
  | .templated plain => plain.text ++ " or a GitHub Actions expression"
  | .either first second => s!"'{first}' or '{second}'"
  | .oneOf words => "one of " ++ ", ".intercalate words

inductive SchemaFault where
  /-- The setting at a place has to be something else; `got` shows what it is. -/
  | mustBe (place : String) (expected : Expectation) (got : Option String)
  | checkoutItem (index : Nat) (fault : SchemaFault)
  | checkoutNoObject (index : Nat) (got : String)
  | unknownScope (name : String) (valid : List String)
  | unknownLevel (name : String) (valid : List String)
  | importWithoutPath
  | importOfLockFile (entry : String)
  | missingTrigger
  | triggerNoString
  | missingEngineId
  | invalidEngineId (id : String)
  | unknownEngine (id : String)
  | noEngine (unit className : String)
  | repeatedCacheIds
  | serverWithoutCommand (place : String)
  | serverWithoutUrl (place : String)
  | safeInputHandlers (place : String)
  | unknownMessage (name : String) (valid : List String)
  | customJobs
  | negativeExpiry (place : String) (days : Int)
  | incompleteApp (place : String)
  | unknownOutput (name : String) (close : Option String)
  | invalidActionMode (value source : String)
  | unpinnedAction (repo : String) (known : List String)
deriving Repr, DecidableEq

def SchemaFault.message : SchemaFault → String
  | .mustBe place expected none => s!"{place} must be {expected.text}"
  | .mustBe place expected (some got) => s!"{place} must be {expected.text}, got {got}"
  | .checkoutItem index fault => s!"checkout[{index}]: {fault.message}"
  | .checkoutNoObject index got => s!"checkout[{index}]: expected object, got {got}"
  | .unknownScope name valid =>
    s!"Unknown permission scope: '{name}'\n  Valid scopes: " ++ ", ".intercalate valid
  | .unknownLevel name valid =>
    s!"Unknown permission level: '{name}'\n  Valid levels: " ++ ", ".intercalate valid
  | .importWithoutPath => "import object must have a 'path' field"
  | .importOfLockFile entry =>
    s!"cannot import .lock.yml files: '{entry}'. " ++
    "Lock files are compiled outputs. Import the source .md file instead"
  | .missingTrigger =>
    "missing required 'on' field\n  Suggestion: Add a trigger, e.g. 'on: workflow_dispatch'"
  | .triggerNoString => "on: event list must contain only strings"
  | .missingEngineId => "engine.id is required when engine is an object"
  | .invalidEngineId id =>
    s!"Invalid engine id: '{id}'\n" ++
    "  Why it's needed: The engine id selects the engine module to load\n" ++
    "  How to fix: Use lowercase letters, digits, hyphens, underscores only"
  | .unknownEngine id =>
    s!"Unknown engine: '{id}'\n" ++
    "  Suggestion: Use one of copilot, claude, codex, gemini, custom"
  | .noEngine unit className =>
    "Engine module missing engine class\n" ++
    s!"  Module: {unit}\n" ++
    s!"  Expected class: {className}"
  | .repeatedCacheIds => "tools.cache-memory ids must be unique"
  | .serverWithoutCommand place =>
    s!"{place}: stdio MCP server requires 'command' or 'container'"
  | .serverWithoutUrl place => s!"{place}: http MCP server requires 'url'"
  | .safeInputHandlers place => s!"{place} must define exactly one of 'script', 'run' or 'py'"
  | .unknownMessage name valid =>
    s!"Unknown message '{name}' in safe-outputs.messages. Valid messages: " ++
    ", ".intercalate valid
  | .customJobs =>
    "safe-outputs.jobs (custom safe-output jobs) is not supported\n" ++
    "  Suggestion: Run the extra work as safe-outputs.steps instead"
  | .negativeExpiry place days => s!"{place} must not be negative, got {days}"
  | .incompleteApp place =>
    s!"{place} requires 'app-id' and 'private-key'\n" ++
    "  Suggestion: Use app-id: $\x7b\x7b vars.APP_ID \x7d\x7d and " ++
    "private-key: $\x7b\x7b secrets.APP_PRIVATE_KEY \x7d\x7d"
  | .unknownOutput name none => s!"Unknown safe-output type: '{name}'"
  | .unknownOutput name (some close) =>
    s!"Unknown safe-output type: '{name}'\n  Suggestion: Did you mean '{close}'?"
  | .invalidActionMode value source =>
    s!"Invalid action mode '{value}' in {source}\n  Valid modes: dev, release, script"
  | .unpinnedAction repo known =>
    s!"No pinned version known for action '{repo}'\n  Known actions: " ++ ", ".intercalate known

end FlowLock
