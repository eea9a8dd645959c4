import FlowLock.Yaml.Problem
import FlowLock.Yaml.Schema

/-!
# Nodes of a document

A document is a graph of tagged nodes.  Nodes are numbered in the order in which
they start, and a collection holds the numbers of its parts.  An alias is the number
of the node that its anchor names, so collections can share a part, and a collection
can be a part of itself.
-/

namespace FlowLock.Yaml

abbrev NodeId := Nat

inductive Content where
  | scalar (text : String)
  | sequence (items : List NodeId)
  | mapping (entries : List (NodeId × NodeId))
deriving Repr, Inhabited

def Content.shape : Content → Shape
  | .scalar _ => .scalar
  | .sequence _ => .sequence
  | .mapping _ => .mapping

structure Node where
  mark : Mark
  tag : String
  content : Content
deriving Repr, Inhabited

def Node.shape (node : Node) : Shape := node.content.shape

structure Graph where
  nodes : Array Node := #[]
deriving Repr, Inhabited

namespace Graph

/-- How many nodes there are, which is the number of the next one. -/
def size (g : Graph) : Nat := g.nodes.size

def node (g : Graph) (n : NodeId) : Node := g.nodes.getD n default

def add (g : Graph) (node : Node) : Graph := ⟨g.nodes.push node⟩

def setContent (g : Graph) (n : NodeId) (content : Content) : Graph :=
  ⟨g.nodes.modify n fun node => { node with content }⟩

def setTag (g : Graph) (n : NodeId) (tag : String) : Graph :=
  ⟨g.nodes.modify n fun node => { node with tag }⟩

def hasTag (g : Graph) (n : NodeId) (tag : String) : Bool := (g.node n).tag == tag

def entries (g : Graph) (n : NodeId) : List (NodeId × NodeId) :=
  match (g.node n).content with
  | .mapping entries => entries
  | _ => []

def entryCount (g : Graph) : Nat :=
  g.nodes.foldl (fun count node =>
    match node.content with
    | .mapping entries => count + entries.length
    | _ => count) 0

end Graph

end FlowLock.Yaml
