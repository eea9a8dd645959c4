import FlowLock.Yaml.Problem

/-!
# Tokens of a YAML document

The units that the lexer cuts a document into.  Indentation becomes tokens too:
where a block collection starts and ends is said by tokens of their own.
-/

namespace FlowLock.Yaml

inductive Directive where
  | version (major minor : Nat)
  | tag (handle expansion : String)
  | other
deriving Repr, DecidableEq

inductive TokenKind where
  | streamStart
  | streamEnd
  | directive (value : Directive)
  | documentStart
  | documentEnd
  | blockSequenceStart
  | blockMappingStart
  | blockEnd
  | flowSequenceStart
  | flowSequenceEnd
  | flowMappingStart
  | flowMappingEnd
  | blockEntry
  | flowEntry
  | key
  | value
  | alias (name : String)
  | anchor (name : String)
  /-- A tag with a handle to look up, or complete by itself. -/
  | tag (handle : Option String) (suffix : String)
  | scalar (text : String) (plain : Bool)
deriving Repr, DecidableEq, Inhabited

/-- A token with the places of its first character and after its last. -/
structure Token where
  kind : TokenKind
  start : Mark
  finish : Mark
deriving Repr, DecidableEq, Inhabited

def TokenKind.name : TokenKind → String
  | .streamStart => "<stream start>"
  | .streamEnd => "<stream end>"
  | .directive _ => "<directive>"
  | .documentStart => "<document start>"
  | .documentEnd => "<document end>"
  | .blockSequenceStart => "<block sequence start>"
  | .blockMappingStart => "<block mapping start>"
  | .blockEnd => "<block end>"
  | .flowSequenceStart => "["
  | .flowSequenceEnd => "]"
  | .flowMappingStart => "\x7b"
  | .flowMappingEnd => "\x7d"
  | .blockEntry => "-"
  | .flowEntry => ","
  | .key => "?"
  | .value => ":"
  | .alias _ => "<alias>"
  | .anchor _ => "<anchor>"
  | .tag _ _ => "<tag>"
  | .scalar _ _ => "<scalar>"

end FlowLock.Yaml
