import FlowLock.Yaml.Node
import FlowLock.Yaml.Token

/-!
# From tokens to nodes

A recursive reader over the settled tokens of a document.  It looks one token
ahead; looking past the last settled token meets the failure that the lexer left
there.

The recursion is bounded by a number that the wrapper computes from the number of
tokens: every call passes a token or is followed by one that does.
-/

namespace FlowLock.Yaml

structure Reader where
  tokens : List Token
  failure : Option Failure
  handles : List (String × String)
  anchors : List (String × NodeId)
  schema : Schema
  graph : Graph
  /-- How many collections are being read, one inside the other. -/
  depth : Nat

abbrev Reading := StateT Reader (Except Failure)

namespace Reader

def defaultHandles : List (String × String) := [("!", "!"), ("!!", "tag:yaml.org,2002:")]

def peek : Reading Token := do
  let r ← get
  match r.tokens with
  | token :: _ => pure token
  | [] => throw (r.failure.getD .fatal)

def take : Reading Token := do
  let token ← peek
  modify fun r => { r with tokens := r.tokens.drop 1 }
  pure token

def peekKind : Reading TokenKind := do
  let token ← peek
  pure token.kind

def failHere {α : Type} (cause : String → Problem) : Reading α := do
  let token ← peek
  throw (.problem (cause token.kind.name) token.start)

def fresh (mark : Mark) (tag : String) (content : Content) : Reading NodeId := do
  let n := (← get).graph.size
  modify fun r => { r with graph := r.graph.add { mark, tag, content } }
  pure n

def absent (mark : Mark) : Reading NodeId := do
  let r ← get
  fresh mark (r.schema.resolve "") (.scalar "")

structure Properties where
  anchor : Option String
  tag : Option String
  start : Option Mark

def expandTag (handle : Option String) (suffix : String) (mark : Mark) : Reading String := do
  match handle with
  | none => pure suffix
  | some handle =>
    let r ← get
    match r.handles.lookup handle with
    | some expansion => pure (expansion ++ suffix)
    | none => throw (.problem (.undefinedTagHandle handle) mark)

/-- The anchor and the tag before a node, in either order. -/
def properties : Reading Properties := do
  let first ← peek
  match first.kind with
  | .anchor name => do
    let _ ← take
    let second ← peek
    match second.kind with
    | .tag handle suffix => do
      let _ ← take
      let tag ← expandTag handle suffix second.start
      pure { anchor := some name, tag := some tag, start := some first.start }
    | _ => pure { anchor := some name, tag := none, start := some first.start }
  | .tag handle suffix => do
    let _ ← take
    let second ← peek
    match second.kind with
    | .anchor name => do
      let _ ← take
      let tag ← expandTag handle suffix first.start
      pure { anchor := some name, tag := some tag, start := some first.start }
    | _ =>
      let tag ← expandTag handle suffix first.start
      pure { anchor := none, tag := some tag, start := some first.start }
  | _ => pure { anchor := none, tag := none, start := none }

def isOpenTag (tag : Option String) : Bool := tag == none || tag == some "!"

def collectionTag (tag : Option String) (standard : String) : String :=
  if isOpenTag tag then standard else tag.getD standard

def scalarTag (tag : Option String) (plain : Bool) (text : String) : Reading String := do
  let r ← get
  pure (match tag with
    | none => if plain then r.schema.resolve text else Tag.str
    | some tag => if tag == "!" then r.schema.resolve text else tag)

/-- An anchor that has not been used before. -/
def checkAnchor (anchor : Option String) (mark : Mark) : Reading Unit := do
  match anchor with
  | none => pure ()
  | some name =>
    let r ← get
    if (r.anchors.lookup name).isSome then throw (.problem .repeatedAnchor mark) else pure ()

/-- What an anchor names from here on. -/
def setAnchor (anchor : Option String) (n : NodeId) : Reading Unit :=
  match anchor with
  | none => pure ()
  | some name => modify fun r => { r with anchors := (name, n) :: r.anchors }

def aliased (name : String) (mark : Mark) : Reading NodeId := do
  let r ← get
  match r.anchors.lookup name with
  | none => throw (.problem (.undefinedAlias name) mark)
  | some n => pure n

def scalarNode (props : Properties) (mark : Mark) (tag text : String) : Reading NodeId := do
  checkAnchor props.anchor mark
  let n ← fresh mark tag (.scalar text)
  setAnchor props.anchor n
  pure n

def maxDepth : Nat := 485

/-- A collection whose content the given reader reads.  Its anchor names it from the
start, so it can be a part of itself. -/
def collection (props : Properties) (mark : Mark) (standard : String) (empty : Content)
    (content : Reading Content) : Reading NodeId := do
  checkAnchor props.anchor mark
  if (← get).depth ≥ maxDepth then throw .fatal
  let n ← fresh mark (collectionTag props.tag standard) empty
  setAnchor props.anchor n
  modify fun r => { r with depth := r.depth + 1 }
  let content ← content
  modify fun r => { r with graph := r.graph.setContent n content, depth := r.depth - 1 }
  pure n

def sequence (props : Properties) (mark : Mark) (items : Reading (List NodeId)) :
    Reading NodeId :=
  collection props mark Tag.seq (.sequence []) (Content.sequence <$> items)

def mapping (props : Properties) (mark : Mark) (entries : Reading (List (NodeId × NodeId))) :
    Reading NodeId :=
  collection props mark Tag.map (.mapping []) (Content.mapping <$> entries)

/-- A node, or none where the next token is one of those that come after it. -/
def orAbsent (ends : List TokenKind) (mark : Mark) (node : Reading NodeId) : Reading NodeId := do
  if ends.contains (← peekKind) then absent mark else node

/-- The comma before an item that is not the first between brackets. -/
def separator (first : Bool) (closing : String) : Reading Unit := do
  if first then pure ()
  else match ← peekKind with
    | .flowEntry => do
      let _ ← take
      pure ()
    | _ => failHere (.expectedFlowEnd closing)

mutual

/-- A node.  Block collections are allowed where `block` says so, and a sequence
that is not indented where `indentless` does. -/
def node : Nat → Bool → Bool → Reading NodeId
  | 0, _, _ => throw .fatal
  | n + 1, block, indentless => do
    let first ← peek
    match first.kind with
    | .alias name => do
      let _ ← take
      aliased name first.start
    | _ => do
      let props ← properties
      let token ← peek
      let mark := props.start.getD token.start
      match token.kind with
      | .scalar text plain => do
        let _ ← take
        scalarNode props mark (← scalarTag props.tag plain text) text
      | .flowSequenceStart => do
        let _ ← take
        sequence props mark (flowItems n true)
      | .flowMappingStart => do
        let _ ← take
        mapping props mark (flowEntries n true)
      | kind =>
        if indentless && kind == .blockEntry then sequence props mark (indentlessItems n)
        else if block && kind == .blockSequenceStart then do
          let _ ← take
          sequence props mark (blockItems n)
        else if block && kind == .blockMappingStart then do
          let _ ← take
          mapping props mark (blockEntries n)
        else if props.start.isSome then
          scalarNode props mark (← scalarTag props.tag true "") ""
        else failHere .expectedContent
termination_by structural n => n

def blockItems : Nat → Reading (List NodeId)
  | 0 => throw .fatal
  | n + 1 => do
    match ← peekKind with
    | .blockEntry => do
      let entry ← take
      let item ← orAbsent [.blockEntry, .blockEnd] entry.finish (node n true false)
      let items ← blockItems n
      pure (item :: items)
    | .blockEnd => do
      let _ ← take
      pure []
    | _ => failHere .expectedBlockEnd

def indentlessItems : Nat → Reading (List NodeId)
  | 0 => throw .fatal
  | n + 1 => do
    match ← peekKind with
    | .blockEntry => do
      let entry ← take
      let item ← orAbsent [.blockEntry, .key, .value, .blockEnd] entry.finish (node n true false)
      let items ← indentlessItems n
      pure (item :: items)
    | _ => pure []

def blockEntries : Nat → Reading (List (NodeId × NodeId))
  | 0 => throw .fatal
  | n + 1 => do
    match ← peekKind with
    | .key => do
      let mark ← take
      let key ← orAbsent [.key, .value, .blockEnd] mark.finish (node n true true)
      let value ← blockValue n
      let entries ← blockEntries n
      pure ((key, value) :: entries)
    | .blockEnd => do
      let _ ← take
      pure []
    | _ => failHere .expectedBlockEnd

def blockValue : Nat → Reading NodeId
  | 0 => throw .fatal
  | n + 1 => do
    let token ← peek
    match token.kind with
    | .value => do
      let _ ← take
      orAbsent [.key, .value, .blockEnd] token.finish (node n true true)
    | _ => absent token.start

def flowItems : Nat → Bool → Reading (List NodeId)
  | 0, _ => throw .fatal
  | n + 1, first => do
    match ← peekKind with
    | .flowSequenceEnd => do
      let _ ← take
      pure []
    | _ => do
      separator first "]"
      let token ← peek
      match token.kind with
      | .key => do
        let _ ← take
        let key ← orAbsent [.value, .flowEntry, .flowSequenceEnd] token.finish (node n false false)
        let value ← flowSequenceValue n
        let item ← fresh token.start Tag.map (.mapping [(key, value)])
        let items ← flowItems n false
        pure (item :: items)
      | .flowSequenceEnd => do
        let _ ← take
        pure []
      | _ => do
        let item ← node n false false
        let items ← flowItems n false
        pure (item :: items)

def flowSequenceValue : Nat → Reading NodeId
  | 0 => throw .fatal
  | n + 1 => do
    let token ← peek
    match token.kind with
    | .value => do
      let _ ← take
      orAbsent [.flowEntry, .flowSequenceEnd] token.finish (node n false false)
    | _ => absent token.start

def flowEntries : Nat → Bool → Reading (List (NodeId × NodeId))
  | 0, _ => throw .fatal
  | n + 1, first => do
    match ← peekKind with
    | .flowMappingEnd => do
      let _ ← take
      pure []
    | _ => do
      separator first "\x7d"
      let token ← peek
      match token.kind with
      | .key => do
        let _ ← take
        let key ← orAbsent [.value, .flowEntry, .flowMappingEnd] token.finish (node n false false)
        let value ← flowMappingValue n
        let entries ← flowEntries n false
        pure ((key, value) :: entries)
      | .flowMappingEnd => do
        let _ ← take
        pure []
      | _ => do
        let key ← node n false false
        let after ← peek
        let value ← absent after.start
        let entries ← flowEntries n false
        pure ((key, value) :: entries)

def flowMappingValue : Nat → Reading NodeId
  | 0 => throw .fatal
  | n + 1 => do
    let token ← peek
    match token.kind with
    | .value => do
      let _ ← take
      orAbsent [.flowEntry, .flowMappingEnd] token.finish (node n false false)
    | _ => absent token.start

end

/-! ## Documents -/

/-- Document ends before a document; the bound is the number of tokens left. -/
def skipDocumentEnds : Nat → Reading Unit
  | 0 => pure ()
  | n + 1 => do
    match ← peekKind with
    | .documentEnd => do
      let _ ← take
      skipDocumentEnds n
    | _ => pure ()

/-- The directives before a document.  `version` says whether a version was given,
`handles` are the handles declared so far. -/
def directives : Nat → Bool → List (String × String) → Reading (List (String × String))
  | 0, _, handles => pure handles
  | n + 1, version, handles => do
    let token ← peek
    match token.kind with
    | .directive (.version major _) => do
      let _ ← take
      if version then throw (.problem .repeatedVersion token.start)
      else if major != 1 then throw (.problem .incompatibleVersion token.start)
      else directives n true handles
    | .directive (.tag handle expansion) => do
      let _ ← take
      if (handles.lookup handle).isSome then
        throw (.problem (.repeatedTagHandle handle) token.start)
      else directives n version (handles ++ [(handle, expansion)])
    | .directive .other => do
      let _ ← take
      directives n version handles
    | _ => pure handles

/-- The start of an explicit document, with its place; `none` at the end of the
stream. -/
def documentStart (bound : Nat) : Reading (Option Mark) := do
  skipDocumentEnds bound
  let first ← peek
  match first.kind with
  | .streamEnd => pure none
  | _ => do
    let handles ← directives bound false []
    modify fun r => { r with handles := handles ++ defaultHandles }
    match ← peekKind with
    | .documentStart => do
      let _ ← take
      pure (some first.start)
    | _ => failHere .expectedDocumentStart

def documentContent (bound : Nat) : Reading NodeId := do
  let token ← peek
  match token.kind with
  | .directive _ | .documentStart | .documentEnd | .streamEnd => absent token.start
  | _ => node bound true false

/-- The end of a document, after which no other may come. -/
def lastDocument (bound : Nat) (root : NodeId) : Reading (Option NodeId) := do
  match ← peekKind with
  | .documentEnd => do
    let _ ← take
    pure ()
  | _ => pure ()
  match ← documentStart bound with
  | none => pure (some root)
  | some mark => throw (.problem .anotherDocument mark)

def stream (bound : Nat) : Reading (Option NodeId) := do
  let _ ← take
  match ← peekKind with
  | .directive _ | .documentStart | .streamEnd => do
    match ← documentStart bound with
    | none => pure none
    | some _ => do
      let root ← documentContent bound
      lastDocument bound root
  | _ => do
    let root ← node bound true false
    lastDocument bound root

end Reader

def Reader.start (schema : Schema) (tokens : List Token) (failure : Option Failure) : Reader :=
  { tokens, failure, handles := Reader.defaultHandles, anchors := [], schema, graph := {},
    depth := 0 }

/-- The single document of a stream of tokens, as its nodes and the number of the
outermost one; `none` when the stream is empty. -/
def Graph.ofTokens (schema : Schema) (tokens : List Token) (failure : Option Failure) :
    Except Failure (Option (Graph × NodeId)) :=
  ((Reader.stream (4 * tokens.length + 4)).run (Reader.start schema tokens failure)).map
    fun (root, r) => root.map fun n => (r.graph, n)

end FlowLock.Yaml
