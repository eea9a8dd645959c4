import FlowLock.Proofs.Yaml.Layout
import FlowLock.Yaml.Node

/-!
# Values in a graph

A document without aliases is a graph in which a collection is numbered before its parts.
Nodes that are added later, and changes to nodes with smaller numbers, leave the value of a
node as it is.
-/

namespace FlowLock.Yaml

open Nat

/-- An entry of a mapping, with the numbers of the nodes of its key and its value. -/
structure Branch where
  key : String
  keyId : NodeId
  value : Value
  valueId : NodeId

def Branch.ids (b : Branch) : NodeId × NodeId := (b.keyId, b.valueId)

def Branch.entry (b : Branch) : Value × Value := (.str b.key, b.value)

namespace Graph

variable {g g' g'' : Graph} {n i : NodeId} {v : Value} {node : Node} {content : Content}

/-- A node stands for a value, and its parts have greater numbers. -/
inductive Stores (g : Graph) : NodeId → Value → Prop
  | scalar {n : NodeId} {v : Value} {mark : Mark} {tag text : String}
    (hnode : g.nodes[n]? = some ⟨mark, tag, .scalar text⟩) (h : Denotes tag text v) : Stores g n v
  | list {n : NodeId} {mark : Mark} {parts : List (NodeId × Value)}
    (hnode : g.nodes[n]? = some ⟨mark, Tag.seq, .sequence (parts.map (·.1))⟩)
    (hlt : ∀ p ∈ parts, n < p.1) (h : ∀ p ∈ parts, Stores g p.1 p.2) :
    Stores g n (.list (parts.map (·.2)))
  | map {n : NodeId} {mark : Mark} {branches : List Branch}
    (hnode : g.nodes[n]? = some ⟨mark, Tag.map, .mapping (branches.map (·.ids))⟩)
    (hkeys : (branches.map (·.key)).Nodup) (hlt : ∀ b ∈ branches, n < b.keyId ∧ n < b.valueId)
    (hkey : ∀ b ∈ branches, ∃ mark, g.nodes[b.keyId]? = some ⟨mark, Tag.str, .scalar b.key⟩)
    (h : ∀ b ∈ branches, Stores g b.valueId b.value) : Stores g n (.map (branches.map (·.entry)))

theorem Stores.mono (h : Stores g n v)
    (hsame : ∀ {i : NodeId} {node}, n ≤ i → g.nodes[i]? = some node → g'.nodes[i]? = some node) :
    Stores g' n v := by
  induction h with
  | scalar hnode h => exact .scalar (hsame (le_refl _) hnode) h
  | list hnode hlt h ih =>
    exact .list (hsame (le_refl _) hnode) hlt fun p hp =>
      ih p hp fun hi => hsame (le_trans (le_of_lt (hlt p hp)) hi)
  | map hnode hkeys hlt hkey h ih =>
    refine .map (hsame (le_refl _) hnode) hkeys hlt (fun b hb => ?_)
      fun b hb => ih b hb fun hi => hsame (le_trans (le_of_lt (hlt b hb).2) hi)
    obtain ⟨mark, hmark⟩ := hkey b hb
    exact ⟨mark, hsame (le_of_lt (hlt b hb).1) hmark⟩

structure Extends (g g' : Graph) : Prop where
  size_le : g.size ≤ g'.size
  node : ∀ {i : NodeId} {node}, g.nodes[i]? = some node → g'.nodes[i]? = some node

theorem Extends.trans (h : Extends g g') (h' : Extends g' g'') : Extends g g'' :=
  ⟨le_trans h.size_le h'.size_le, fun hnode => h'.node (h.node hnode)⟩

theorem Extends.stores (h : Extends g g') (hstores : Stores g n v) : Stores g' n v :=
  hstores.mono fun _ hnode => h.node hnode

theorem size_add (g : Graph) (node : Node) : (g.add node).size = g.size + 1 := Array.size_push _

theorem node_add (g : Graph) (node : Node) : (g.add node).nodes[g.size]? = some node :=
  Array.getElem?_push_size

theorem extends_add (g : Graph) (node : Node) : Extends g (g.add node) where
  size_le := by rw [size_add]; exact Nat.le_succ _
  node := by
    intro i other h
    have hlt : i < g.nodes.size := (Array.getElem?_eq_some_iff.mp h).1
    rw [add, Array.getElem?_push, if_neg (Nat.ne_of_lt hlt), h]

theorem node_setContent (h : g.nodes[n]? = some node) :
    (g.setContent n content).nodes[n]? = some { node with content } := by
  rw [setContent, Array.getElem?_modify, if_pos rfl, h]
  rfl

theorem node_setContent_of_ne (h : i ≠ n) : (g.setContent n content).nodes[i]? = g.nodes[i]? := by
  rw [setContent, Array.getElem?_modify, if_neg (Ne.symm h)]

theorem Extends.setContent (h : Extends (g.add node) g') (content : Content) :
    Extends g (g'.setContent g.size content) where
  size_le := by
    have hsize : (g'.setContent g.size content).size = g'.size := Array.size_modify
    have hle := h.size_le
    rw [size_add] at hle
    omega
  node := by
    intro i other hother
    have hlt : i < g.size := (Array.getElem?_eq_some_iff.mp hother).1
    rw [node_setContent_of_ne (Nat.ne_of_lt hlt)]
    exact h.node ((extends_add g node).node hother)

theorem Stores.setContent (h : Stores g i v) (hlt : n < i) :
    Stores (g.setContent n content) i v := by
  refine h.mono fun hle hnode => ?_
  rwa [node_setContent_of_ne (ne_of_gt (lt_of_lt_of_le hlt hle))]

end Graph

end FlowLock.Yaml
