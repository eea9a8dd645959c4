import FlowLock.Yaml.Node

/-!
# Merge keys

The value of a merge key is a mapping or a sequence of mappings.  Their entries go
before the mapping's own, so that the own entries win, and the merge key itself goes
away.  The mappings that are brought in lose their merge keys first.  A mapping can
bring in itself; what it then brings in are its other entries.

Merging changes the nodes, and whoever meets a mapping afterwards, by an alias or as
an item of an ordered list, sees it as it is then.
-/

namespace FlowLock.Yaml.Graph

def firstMerge? (g : Graph) (n : NodeId) : Option (Nat × NodeId) :=
  let entries := g.entries n
  match entries.findIdx? fun e => g.hasTag e.1 Tag.merge with
  | some place => (entries[place]?).map fun e => (place, e.2)
  | none => none

/-- The graph in which the keys of a mapping are texts where they were value marks. -/
def plainKeys (g : Graph) (n : NodeId) : Graph :=
  (g.entries n).foldl
    (fun g e => if g.hasTag e.1 Tag.value then g.setTag e.1 Tag.str else g) g

/-- The entries that an item of a merged sequence brings in, put before those of the
items in front of it, so that earlier items win. -/
def bringItem (flat : NodeId → Graph → Except Failure Graph)
    (state : Graph × List (NodeId × NodeId)) (item : NodeId) :
    Except Failure (Graph × List (NodeId × NodeId)) :=
  let node := state.1.node item
  match node.content with
  | .mapping _ => do
    let g ← flat item state.1
    .ok (g, g.entries item ++ state.2)
  | _ => .error (.problem (.expectedMergeItem node.shape) node.mark)

/-- The entries that the value of a merge key brings in, once the mappings among it
are flat. -/
def bring (flat : NodeId → Graph → Except Failure Graph) (value : NodeId) (g : Graph) :
    Except Failure (Graph × List (NodeId × NodeId)) :=
  let node := g.node value
  match node.content with
  | .mapping _ => do
    let g ← flat value g
    .ok (g, g.entries value)
  | .sequence items => items.foldlM (bringItem flat) (g, [])
  | .scalar _ => .error (.problem (.expectedMerge node.shape) node.mark)

/-- A mapping without merge keys, given the entries that those before brought in.
Every step takes away a merge key, which bounds the recursion. -/
def flattenWith : Nat → List (NodeId × NodeId) → NodeId → Graph → Except Failure Graph
  | 0, _, _, _ => .error .fatal
  | bound + 1, brought, n, g =>
    match g.firstMerge? n with
    | none => .ok ((g.setContent n (.mapping (brought ++ g.entries n))).plainKeys n)
    | some (place, value) => do
      let g := g.setContent n (.mapping ((g.entries n).eraseIdx place))
      let (g, more) ← bring (flattenWith bound []) value g
      flattenWith bound (brought ++ more) n g

/-- The graph in which a mapping has no merge keys left.  `bound` is at least the
number of entries in the graph. -/
def flatten (bound : Nat) (n : NodeId) (g : Graph) : Except Failure Graph :=
  flattenWith (bound + 1) [] n g

end FlowLock.Yaml.Graph
