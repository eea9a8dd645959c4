import FlowLock.Proofs.Yaml.Reader
import FlowLock.Proofs.Yaml.Settle

/-!
# What is written is read back

A mapping that a document keeps is written as lines whose tokens are read as a graph that
stands for it, and loading makes it out of the graph again.  Empty lines and comments before
it change nothing.
-/

namespace FlowLock.Yaml

theorem load_eq {text : String} {tokens : List Token} {g : Graph} {v : Value}
    (htokens : tokenize text.toList = (tokens, none))
    (hgraph : Graph.ofTokens Schema.workflow tokens none = .ok (some (g, 0)))
    (hstores : g.Stores 0 v) : load Schema.workflow text = .ok v := by
  obtain ⟨s, hmake, hmade, hfilled⟩ := Loading.makeAll_ok hstores
  have hvalue := Loading.value_eq hfilled hstores hmade
  rw [load, htokens]
  dsimp only
  rw [hgraph]
  change (Loading.makeAll 0 (Loading.start g) >>= fun p => pure (p.2.value 0)) = _
  rw [hmake, ← hvalue]
  rfl

/-- A document that is a mapping after lines that are passed over is read back. -/
theorem load_document {lines : List (List Char)} {es : Entries} {text : String}
    (hlines : ∀ line ∈ lines, IsRemark line)
    (h : isStorable Reader.maxDepth (.map es))
    (htext : text.toList = lineText lines ++ (dump (.map es)).toList) :
    load Schema.workflow text = .ok (.map es) := by
  obtain ⟨ks, htokens, hlays⟩ := exists_laysRoot h
  obtain ⟨tokens, tail, ends, htokenize, hclosing, hkinds⟩ := hlays.tokenize hlines htext
  obtain ⟨rfl, -⟩ | ⟨⟨k, ks', rfl, hopen⟩, hreads⟩ := Reader.readsPart_tokens htokens
  · cases htokens
  · obtain ⟨g, hgraph, hstores⟩ := Graph.ofTokens_eq hopen hreads hclosing (Nat.le_refl _) hkinds
    exact load_eq htokenize hgraph hstores

end FlowLock.Yaml
