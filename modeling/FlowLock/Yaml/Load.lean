import FlowLock.Yaml.Node.Merge
import FlowLock.Yaml.Node.Reader
import FlowLock.Yaml.Scalar
import FlowLock.Yaml.Token.Lexer

/-!
# From a document to a value

The tag of a node says what becomes of it.  Scalars are made where they are met,
collections are filled in the order in which they were met, and each node is made
once.  So of several faults the one on the outermost level is reported, and of those
the first.

When everything is made, values are put together from the inside out.  What is never
settled in this way are the collections that hold themselves and those around them;
they are knots.
-/

namespace FlowLock.Yaml

/-- The text that a node stands for as a scalar.  A mapping stands for the value at
its value mark; the recursion is bounded by the number of nodes. -/
def Graph.scalarText (g : Graph) : Nat → NodeId → Except Failure String
  | 0, _ => .error .fatal
  | bound + 1, n =>
    let node := g.node n
    match node.content with
    | .scalar text => .ok text
    | .sequence _ => .error (.problem (.expectedShape .scalar .sequence) node.mark)
    | .mapping entries =>
      match entries.find? fun e => g.hasTag e.1 Tag.value with
      | some (_, value) => g.scalarText bound value
      | none => .error (.problem (.expectedShape .scalar .mapping) node.mark)

inductive Made where
  /-- A scalar.  Two scalars are the same key when they are equal or have the same
  identity; a number that is not equal to itself is told by its identity alone. -/
  | scalar (value : Value) (identity : Nat)
  | list (items : List NodeId)
  | ordered (entries : List (NodeId × NodeId))
  | set (keys : List NodeId)
  | map (entries : List (NodeId × NodeId))
deriving Inhabited

def Made.sameKey : Made → Made → Bool
  | .scalar v i, .scalar w j => i == j || v.same w
  | _, _ => false

structure Loading where
  graph : Graph
  /-- What the nodes are made into, by number; `none` for those not met yet. -/
  made : Array (Option Made)
  /-- The collections that wait to be filled, the latest first. -/
  waiting : List NodeId
  entryCount : Nat

/-- Work on the nodes of a document. -/
abbrev Loader := StateT Loading (Except Failure)

namespace Loading

def start (g : Graph) : Loading :=
  { graph := g, made := Array.replicate g.size none, waiting := [], entryCount := g.entryCount }

def made? (s : Loading) (n : NodeId) : Option Made := s.made.getD n none

def failAt {α : Type} (n : NodeId) (problem : Node → Problem) : Loader α := do
  let node := (← get).graph.node n
  throw (.problem (problem node) node.mark)

def put (n : NodeId) (made : Made) : Loader Unit :=
  modify fun s => { s with made := s.made.setIfInBounds n (some made) }

/-- The identity of a scalar: that of its node, except that the number written as
not-a-number is one and the same everywhere. -/
def identity (g : Graph) (n : NodeId) (maker : Maker) (text : String) : Nat :=
  if maker == .float && isNanMark text then g.size else n

def makeScalar (n : NodeId) (maker : Maker) : Loader Unit := do
  let g := (← get).graph
  let text ← g.scalarText (g.size + 1) n
  let node := g.node n
  let value ← if maker == .timestamp && node.shape != .scalar then throw .fatal
    else scalarValue maker node.mark text
  put n (.scalar value (identity g n maker text))

/-- A node where it is met: a scalar is made, a collection waits to be filled. -/
def make (n : NodeId) : Loader Unit := do
  let s ← get
  match s.made? n, Maker.ofTag? (s.graph.node n).tag with
  | some _, _ => pure ()
  | none, none => failAt n fun node => .unknownTag node.tag
  | none, some maker =>
    if maker.isCollection then do
      put n (.list [])
      modify fun s => { s with waiting := n :: s.waiting }
    else makeScalar n maker

def makeKey (n : NodeId) : Loader Unit := do
  make n
  match (← get).made? n with
  | some (.scalar _ _) => pure ()
  | _ => failAt n fun _ => .unhashableKey

def makeEntry (e : NodeId × NodeId) : Loader Unit := do
  makeKey e.1
  make e.2

/-- An entry put into a mapping: of entries with the same key the first gives the key
and the place, the last the value. -/
def putEntry (s : Loading) (entries : List (NodeId × NodeId)) (e : NodeId × NodeId) :
    List (NodeId × NodeId) :=
  let same (k : NodeId) : Bool :=
    match s.made? k, s.made? e.1 with
    | some a, some b => a.sameKey b
    | _, _ => false
  if entries.any fun old => same old.1 then
    entries.map fun old => if same old.1 then (old.1, e.2) else old
  else entries ++ [e]

/-- The entries of a mapping, once its merge keys are gone. -/
def fillMapping (n : NodeId) : Loader (List (NodeId × NodeId)) := do
  let s ← get
  match (s.graph.node n).content with
  | .mapping _ => do
    let g ← s.graph.flatten s.entryCount n
    modify fun s => { s with graph := g }
    let entries := g.entries n
    entries.forM makeEntry
    let s ← get
    pure (entries.foldl s.putEntry [])
  | _ => failAt n fun node => .expectedShape .mapping node.shape

def fillOrdered (item : NodeId) : Loader (NodeId × NodeId) := do
  match ((← get).graph.node item).content with
  | .mapping [(key, value)] => do
    make key
    make value
    pure (key, value)
  | .mapping entries => failAt item fun _ => .orderedEntrySize entries.length
  | _ => failAt item fun node => .expectedOrderedEntry node.shape

def fill (n : NodeId) : Loader Unit := do
  let node := (← get).graph.node n
  match Maker.ofTag? node.tag, node.content with
  | some .seq, .sequence items => do
    items.forM make
    put n (.list items)
  | some .seq, _ => failAt n fun node => .expectedShape .sequence node.shape
  | some .ordered, .sequence items => do
    let entries ← items.mapM fillOrdered
    put n (.ordered entries)
  | some .ordered, _ => failAt n fun node => .expectedOrdered node.shape
  | some .map, _ => do put n (.map (← fillMapping n))
  | some .set, _ => do put n (.set ((← fillMapping n).map (·.1)))
  | _, _ => pure ()

/-- Collections filled, then those that were met meanwhile, and so on.  Every round
but the last meets a new node, which bounds the recursion. -/
def fillAll : Nat → List NodeId → Loader Unit
  | 0, _ => throw .fatal
  | bound + 1, wave => do
    wave.forM fill
    match (← get).waiting with
    | [] => pure ()
    | next => do
      modify fun s => { s with waiting := [] }
      fillAll bound next.reverse

def makeAll (root : NodeId) : Loader Unit := do
  make root
  let s ← get
  modify fun s => { s with waiting := [] }
  fillAll (s.graph.size + 1) s.waiting

/-! ## Values put together -/

def assemble (part : NodeId → Option Value) : Made → Option Value
  | .scalar value _ => some value
  | .list items => (items.mapM part).map .list
  | .ordered entries =>
    (entries.mapM fun (k, v) => do pure (Value.pair (← part k) (← part v))).map .list
  | .set keys => (keys.mapM part).map .set
  | .map entries => (entries.mapM fun (k, v) => do pure (← part k, ← part v)).map .map

def settleNode (s : Loading) (n : NodeId) (values : Array (Option Value)) : Array (Option Value) :=
  match values.getD n none, s.made? n with
  | none, some made => values.setIfInBounds n (assemble (fun k => values.getD k none) made)
  | _, _ => values

/-- A round over the nodes, the last one first. -/
def settleOnce (s : Loading) (values : Array (Option Value)) : Array (Option Value) :=
  (List.range s.made.size).foldr s.settleNode values

/-- Rounds until one settles nothing more. -/
def settle (s : Loading) : Nat → Array (Option Value) → Array (Option Value)
  | 0, values => values
  | bound + 1, values =>
    let next := s.settleOnce values
    if next.countP (·.isSome) == values.countP (·.isSome) then next else settle s bound next

/-- The collections without a value, with references to each other in place of the
parts that have none. -/
def cells (s : Loading) (values : Array (Option Value)) : List (Nat × Value) :=
  let part (k : NodeId) : Option Value := some ((values.getD k none).getD (.knot [] k))
  (List.range s.made.size).filterMap fun n =>
    match values.getD n none, s.made? n with
    | none, some made => (assemble part made).map fun value => (n, value)
    | _, _ => none

def value (s : Loading) (root : NodeId) : Value :=
  let values := s.settle (s.made.size + 1) (Array.replicate s.made.size none)
  match values.getD root none with
  | some value => value
  | none => .knot (s.cells values) root

end Loading

/-- The value of a document: null for an empty one. -/
def load (schema : Schema) (text : String) : Except Failure Value := do
  let (tokens, failure) := tokenize text.toList
  match ← Graph.ofTokens schema tokens failure with
  | none => pure .null
  | some (g, root) => do
    let ((), s) ← (Loading.makeAll root).run (Loading.start g)
    pure (s.value root)

end FlowLock.Yaml
