import FlowLock.Table
import FlowLock.Template
import FlowLock.Text.CaseMap

/-!
# Secrets in environments

A value of an environment may be an expression that reads a secret.  Values that
read a secret nobody asked for are kept away from the agent, and the values of a
server's environment are handed to it through variables of the agent's step.
-/

namespace FlowLock.Secret

open Text Template

def isNameStart (c : Char) : Bool := isAsciiLetter c || c == '_'

def isNameChar (c : Char) : Bool := isNameStart c || isAsciiDigit c

def nameAt? (cs : List Char) : Option String :=
  if !opening.toList.isPrefixOf cs then none
  else
    let inner := (cs.drop opening.length).dropWhile isBlank
    if !"secrets.".toList.isPrefixOf inner then none
    else
      match inner.drop "secrets.".length with
      | [] => none
      | c :: rest =>
        if isNameStart c then some (String.ofList (c :: rest.takeWhile isNameChar)) else none

def nameIn? : List Char → Option String
  | [] => none
  | c :: cs =>
    match nameAt? (c :: cs) with
    | some name => some name
    | none => nameIn? cs

def name? (text : String) : Option String := nameIn? text.toList

/-- Whether an entry of an environment is kept: it reads no secret in the usual
spelling, or its secret or its own name is allowed. -/
def isAllowed (allowed : List String) (key text : String) : Bool :=
  if !includes text (opening ++ " secrets.") then true
  else
    match name? text with
    | none => true
    | some secret => allowed.contains secret || allowed.contains key

def filter (environment : Table String) (allowed : List String) : Table String :=
  List.filter (fun e => isAllowed allowed e.1 e.2) environment

def hasExpression (text : String) : Bool := includes text opening

def variableChar (c : Char) : Char :=
  if ('A' ≤ c && c ≤ 'Z') || isAsciiDigit c || c == '_' then c else '_'

def carrier (server key : String) : String :=
  String.ofList ((upper s!"MCP_{server}_{key}").toList.map variableChar)

def reference (name : String) : String := "$\x7b" ++ name ++ "\x7d"

end FlowLock.Secret
