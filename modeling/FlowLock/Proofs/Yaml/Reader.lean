import FlowLock.Proofs.Outcome
import FlowLock.Proofs.Yaml.Document
import FlowLock.Proofs.Yaml.Node
import FlowLock.Yaml.Node.Reader

/-!
# The nodes of a value

The tokens of a value are read back into a node that stands for the value.  A value without
tokens is null: the reader puts a node there when it meets the token after it.
-/

namespace FlowLock.Yaml.Reader

open List Nat

open Steps (bind_ok map_ok)

variable {r : Reader} {k : TokenKind} {ks rest : List TokenKind} {depth n d : Nat}
  {g : Graph} {mark : Mark} {v : Value}

/-- What the reader has before it and what it has read. -/
structure Has (r : Reader) (ks : List TokenKind) (depth : Nat) (g : Graph) : Prop where
  tokens : r.tokens.map (·.kind) = ks
  schema : r.schema = Schema.workflow
  depth : r.depth = depth
  graph : r.graph = g

/-! ## Single tokens -/

theorem Has.peek (h : Has r (k :: ks) depth g) : ∃ t, t.kind = k ∧ peek r = .ok (t, r) := by
  obtain ⟨t, ts, htokens, hkind, -⟩ := map_eq_cons_iff.mp h.tokens
  refine ⟨t, hkind, ?_⟩
  rw [Reader.peek]
  refine (bind_ok rfl).trans ?_
  rw [htokens]
  rfl

theorem Has.peekKind (h : Has r (k :: ks) depth g) : peekKind r = .ok (k, r) := by
  obtain ⟨t, rfl, hpeek⟩ := h.peek
  exact bind_ok hpeek

theorem Has.take (h : Has r (k :: ks) depth g) :
    ∃ t r', t.kind = k ∧ take r = .ok (t, r') ∧ Has r' ks depth g := by
  obtain ⟨t, hkind, hpeek⟩ := h.peek
  refine ⟨t, { r with tokens := r.tokens.drop 1 }, hkind, bind_ok hpeek, ?_,
    h.schema, h.depth, h.graph⟩
  rw [map_drop, h.tokens]
  rfl

/-! ## New nodes -/

theorem Has.fresh (h : Has r ks depth g) (mark : Mark) (tag : String) (content : Content) :
    ∃ r', fresh mark tag content r = .ok (g.size, r') ∧
      Has r' ks depth (g.add ⟨mark, tag, content⟩) := by
  refine ⟨{ r with graph := r.graph.add ⟨mark, tag, content⟩ }, ?_,
    h.tokens, h.schema, h.depth, by rw [h.graph]⟩
  rw [Reader.fresh, ← h.graph]
  rfl

theorem Has.absent (h : Has r ks depth g) (mark : Mark) :
    ∃ r' g', absent mark r = .ok (g.size, r') ∧ Has r' ks depth g' ∧ g.Extends g' ∧
      g'.Stores g.size .null := by
  obtain ⟨r', hfresh, hr'⟩ := h.fresh mark Tag.null (.scalar "")
  refine ⟨r', _, ?_, hr', g.extends_add _, ?_⟩
  · have hresolve : r.schema.resolve "" = Tag.null := by rw [h.schema]; decide
    rw [Reader.absent]
    refine (bind_ok rfl).trans ?_
    rw [hresolve]
    exact hfresh
  · exact .scalar (g.node_add _) ⟨.null, by decide, rfl, fun _ => rfl⟩

def noProperties : Properties := { anchor := none, tag := none, start := none }

theorem Has.properties (h : Has r (k :: ks) depth g) (hanchor : ∀ name, k ≠ .anchor name)
    (htag : ∀ handle suffix, k ≠ .tag handle suffix) : properties r = .ok (noProperties, r) := by
  obtain ⟨t, hkind, hpeek⟩ := h.peek
  rw [Reader.properties, bind_ok hpeek, hkind]
  cases k with
  | anchor name => exact absurd rfl (hanchor name)
  | tag handle suffix => exact absurd rfl (htag handle suffix)
  | _ => rfl

theorem Has.scalar {text : String} {plain indentless : Bool}
    (h : Has r (.scalar text plain :: ks) depth g) :
    ∃ mark r' g', node (n + 1) true indentless r = .ok (g.size, r') ∧ Has r' ks depth g' ∧
      g.Extends g' ∧ g'.nodes[g.size]? = some ⟨mark, Yaml.scalarTag plain text, .scalar text⟩ := by
  obtain ⟨t, hkind, hpeek⟩ := h.peek
  obtain ⟨_, r₁, -, htake, hr₁⟩ := h.take
  obtain ⟨r₂, hfresh, hr₂⟩ := hr₁.fresh t.start (Yaml.scalarTag plain text) (.scalar text)
  have htag : Reader.scalarTag none plain text r₁ = .ok (Yaml.scalarTag plain text, r₁) := by
    rw [scalarTag]
    refine (bind_ok rfl).trans ?_
    rw [hr₁.schema]
    rfl
  refine ⟨t.start, r₂, _, ?_, hr₂, g.extends_add _, g.node_add _⟩
  rw [node, bind_ok hpeek, hkind]
  refine (bind_ok (h.properties (fun _ => nofun) fun _ _ => nofun)).trans ?_
  rw [bind_ok hpeek, hkind]
  refine (bind_ok htake).trans ((bind_ok htag).trans ?_)
  exact (bind_ok rfl).trans (bind_ok hfresh)

/-! ## Collections -/

/-- The tokens that start a collection: its tag, what it is before it is filled, and how what
it holds is read. -/
inductive Starts (n : Nat) : TokenKind → String → Content → Reading Content → Prop
  | flowList : Starts n .flowSequenceStart Tag.seq (.sequence []) (.sequence <$> flowItems n true)
  | flowMap : Starts n .flowMappingStart Tag.map (.mapping []) (.mapping <$> flowEntries n true)
  | list : Starts n .blockSequenceStart Tag.seq (.sequence []) (.sequence <$> blockItems n)
  | map : Starts n .blockMappingStart Tag.map (.mapping []) (.mapping <$> blockEntries n)

theorem Has.starts {indentless : Bool} {tag : String} {empty : Content} {content : Reading Content}
    (hstarts : Starts n k tag empty content) (h : Has r (k :: ks) depth g) :
    ∃ mark r', node (n + 1) true indentless r = collection noProperties mark tag empty content r' ∧
      Has r' ks depth g := by
  obtain ⟨t, hkind, hpeek⟩ := h.peek
  obtain ⟨_, r', -, htake, hr'⟩ := h.take
  refine ⟨t.start, r', ?_, hr'⟩
  rw [node, bind_ok hpeek, hkind]
  cases hstarts <;>
  · refine (bind_ok (h.properties (fun _ => nofun) fun _ _ => nofun)).trans ?_
    rw [bind_ok hpeek, hkind]
    cases indentless <;> exact bind_ok htake

/-- A collection is there before what it holds, and filled after it. -/
theorem Has.collection {tag : String} {empty : Content} {content : Reading Content}
    (h : Has r ks depth g) (hdepth : depth < maxDepth) :
    ∃ r₁, Has r₁ ks (depth + 1) (g.add ⟨mark, tag, empty⟩) ∧
      ∀ {c r₂ g₂}, content r₁ = .ok (c, r₂) → Has r₂ rest (depth + 1) g₂ →
        ∃ r', collection noProperties mark tag empty content r = .ok (g.size, r') ∧
          Has r' rest depth (g₂.setContent g.size c) := by
  obtain ⟨r₁, hfresh, hr₁⟩ := h.fresh mark tag empty
  refine ⟨{ r₁ with depth := r₁.depth + 1 },
    ⟨hr₁.tokens, hr₁.schema, congrArg (· + 1) hr₁.depth, hr₁.graph⟩, ?_⟩
  intro c r₂ g₂ hread hr₂
  refine ⟨{ r₂ with graph := r₂.graph.setContent g.size c, depth := r₂.depth - 1 }, ?_,
    hr₂.tokens, hr₂.schema, by rw [hr₂.depth]; rfl, by rw [hr₂.graph]⟩
  have hshallow : ¬ r.depth ≥ maxDepth := by
    rw [h.depth]
    exact not_le.mpr hdepth
  rw [Reader.collection]
  refine (bind_ok rfl).trans ((bind_ok rfl).trans ?_)
  rw [if_neg hshallow]
  refine (bind_ok hfresh).trans ((bind_ok rfl).trans ?_)
  exact (bind_ok rfl).trans (bind_ok hread)

def Reads (d : Nat) (v : Value) (ks : List TokenKind) : Prop :=
  ∀ ⦃n indentless r rest depth g⦄, ks.length ≤ n → depth + d ≤ maxDepth →
    Has r (ks ++ rest) depth g →
    ∃ r' g', node n true indentless r = .ok (g.size, r') ∧ Has r' rest depth g' ∧
      g.Extends g' ∧ g'.Stores g.size v

/-! ## Parts of blocks -/

def isOpening : TokenKind → Bool
  | .scalar _ _ | .flowSequenceStart | .flowMappingStart | .blockSequenceStart
  | .blockMappingStart => true
  | _ => false

/-- Tokens are read as a part of a block; a part without tokens is null. -/
def ReadsPart (d : Nat) (v : Value) (ks : List TokenKind) : Prop :=
  ks = [] ∧ v = .null ∨ (∃ k ks', ks = k :: ks' ∧ isOpening k = true) ∧ Reads d v ks

theorem Has.orAbsent {ends : List TokenKind} {indentless : Bool}
    (hends : ∀ k ∈ ends, isOpening k = false) (hk : k ∈ ends) (hpart : ReadsPart d v ks)
    (hn : ks.length ≤ n) (hdepth : depth + d ≤ maxDepth) (h : Has r (ks ++ k :: rest) depth g) :
    ∃ r' g', orAbsent ends mark (node n true indentless) r = .ok (g.size, r') ∧
      Has r' (k :: rest) depth g' ∧ g.Extends g' ∧ g'.Stores g.size v := by
  obtain ⟨rfl, rfl⟩ | ⟨⟨k', ks', rfl, hk'⟩, hreads⟩ := hpart
  · obtain ⟨r', g', habsent, hr', hext, hstores⟩ := h.absent mark
    refine ⟨r', g', ?_, hr', hext, hstores⟩
    rw [orAbsent, bind_ok h.peekKind, if_pos (contains_iff_mem.mpr hk)]
    exact habsent
  · obtain ⟨r', g', hnode, hr'⟩ := hreads hn hdepth h
    refine ⟨r', g', ?_, hr'⟩
    have hopen : ¬ ends.contains k' := by
      intro hmem
      rw [hends k' (contains_iff_mem.mp hmem)] at hk'
      cases hk'
    rw [orAbsent, bind_ok (Has.peekKind h), if_neg hopen]
    exact hnode

def itemTokens (items : List (Value × List TokenKind)) : List TokenKind :=
  items.flatMap fun e => .blockEntry :: e.2

theorem exists_next {α : Type} {start : TokenKind} {tokens : α → List TokenKind} (xs : List α)
    (rest : List TokenKind) :
    ∃ k rest', xs.flatMap (fun x => start :: tokens x) ++ .blockEnd :: rest = k :: rest' ∧
      k ∈ [start, .blockEnd] := by
  cases xs with
  | nil => exact ⟨_, _, rfl, mem_of_getLast? rfl⟩
  | cons x xs => exact ⟨_, _, rfl, mem_cons_self⟩

theorem Has.blockItems {items : List (Value × List TokenKind)}
    (hitems : ∀ e ∈ items, ReadsPart d e.1 e.2) (hn : (itemTokens items).length < n)
    (hdepth : depth + d ≤ maxDepth) (h : Has r (itemTokens items ++ .blockEnd :: rest) depth g) :
    ∃ (parts : List (NodeId × Value)) (r' : Reader) (g' : Graph),
      blockItems n r = .ok (parts.map (·.1), r') ∧ Has r' rest depth g' ∧ g.Extends g' ∧
      parts.map (·.2) = items.map (·.1) ∧ ∀ p ∈ parts, g.size ≤ p.1 ∧ g'.Stores p.1 p.2 := by
  induction items generalizing n r g with
  | nil =>
    rcases n with _ | n
    · cases hn
    obtain ⟨_, r', -, htake, hr'⟩ := h.take
    refine ⟨[], r', g, ?_, hr', ⟨le_refl _, id⟩, rfl, by simp⟩
    rw [blockItems]
    exact (bind_ok h.peekKind).trans (bind_ok htake)
  | cons e items ih =>
    rcases n with _ | n
    · cases hn
    rw [forall_mem_cons] at hitems
    have hlength : e.2.length + (itemTokens items).length < n := by
      simp only [itemTokens, flatMap_cons, length_append, length_cons] at hn ⊢
      omega
    have htokens : itemTokens (e :: items) ++ .blockEnd :: rest =
        .blockEntry :: (e.2 ++ (itemTokens items ++ .blockEnd :: rest)) := by
      simp only [itemTokens, flatMap_cons, cons_append, append_assoc]
    rw [htokens] at h
    obtain ⟨t, r₁, -, htake, hr₁⟩ := h.take
    obtain ⟨k, rest', hnext, hk⟩ := @exists_next _ .blockEntry (fun e => e.2) items rest
    obtain ⟨r₂, g₂, hitem, hr₂, hext₂, hstores⟩ := @Has.orAbsent _ k _ rest' depth n d g t.finish _
      [.blockEntry, .blockEnd] false (by decide) hk hitems.1 (by omega) hdepth
      (hnext ▸ hr₁)
    obtain ⟨parts, r', g', hread, hr', hext, hvalues, hparts⟩ :=
      ih hitems.2 (by omega : (itemTokens items).length < n) (hnext ▸ hr₂)
    refine ⟨(g.size, e.1) :: parts, r', g', ?_, hr', hext₂.trans hext, ?_, ?_⟩
    · rw [blockItems]
      refine (bind_ok h.peekKind).trans ((bind_ok htake).trans ?_)
      exact (bind_ok hitem).trans (bind_ok hread)
    · rw [map_cons, map_cons, hvalues]
    · rw [forall_mem_cons]
      refine ⟨⟨le_refl _, hext.stores hstores⟩, fun p hp => ?_⟩
      exact ⟨le_trans hext₂.size_le (hparts p hp).1, (hparts p hp).2⟩

theorem Has.blockValue (hk : k ∈ [TokenKind.key, .blockEnd]) (hpart : ReadsPart d v ks)
    (hn : ks.length < n) (hdepth : depth + d ≤ maxDepth)
    (h : Has r (.value :: (ks ++ k :: rest)) depth g) :
    ∃ r' g', blockValue n r = .ok (g.size, r') ∧ Has r' (k :: rest) depth g' ∧ g.Extends g' ∧
      g'.Stores g.size v := by
  rcases n with _ | n
  · cases hn
  obtain ⟨t, hkind, hpeek⟩ := h.peek
  obtain ⟨_, r₁, -, htake, hr₁⟩ := h.take
  have hends : [TokenKind.key, .blockEnd] ⊆ [.key, .value, .blockEnd] := by decide
  obtain ⟨r', g', hvalue, hr'⟩ := @Has.orAbsent _ k _ rest depth n d g t.finish _
    [.key, .value, .blockEnd] true (by decide) (hends hk) hpart (by omega) hdepth hr₁
  refine ⟨r', g', ?_, hr'⟩
  rw [blockValue, bind_ok hpeek, hkind]
  exact (bind_ok htake).trans hvalue

theorem Has.blockKey {key : String} {plain : Bool}
    (h : Has r (.key :: .scalar key plain :: ks) depth g) :
    ∃ mark r' g', Has r' ks depth g' ∧ g.Extends g' ∧
      g'.nodes[g.size]? = some ⟨mark, Yaml.scalarTag plain key, .scalar key⟩ ∧
      blockEntries (n + 2) r = (do
        let value ← Reader.blockValue (n + 1)
        let entries ← Reader.blockEntries (n + 1)
        pure ((g.size, value) :: entries) : Reading (List (NodeId × NodeId))) r' := by
  obtain ⟨t, r₁, -, htake, hr₁⟩ := h.take
  obtain ⟨mark, r', g', hkey, hr', hext, hnode⟩ := @Has.scalar _ _ depth n g _ _ true hr₁
  refine ⟨mark, r', g', hr', hext, hnode, ?_⟩
  have horAbsent : Reader.orAbsent [.key, .value, .blockEnd] t.finish (node (n + 1) true true)
      r₁ = .ok (g.size, r') := by
    rw [Reader.orAbsent, bind_ok hr₁.peekKind]
    exact hkey
  rw [Reader.blockEntries]
  exact (bind_ok h.peekKind).trans ((bind_ok htake).trans (bind_ok horAbsent))

theorem Has.blockEntries {rows : List Row}
    (htag : ∀ row ∈ rows, Yaml.scalarTag row.plain row.key = Tag.str)
    (hrows : ∀ row ∈ rows, ReadsPart d row.value row.tokens)
    (hn : (rows.flatMap Row.all).length < n) (hdepth : depth + d ≤ maxDepth)
    (h : Has r (rows.flatMap Row.all ++ .blockEnd :: rest) depth g) :
    ∃ (branches : List Branch) (r' : Reader) (g' : Graph),
      blockEntries n r = .ok (branches.map (·.ids), r') ∧ Has r' rest depth g' ∧ g.Extends g' ∧
      branches.map (·.key) = rows.map (·.key) ∧
      branches.map (·.entry) = rows.map (fun row => (.str row.key, row.value)) ∧
      ∀ b ∈ branches, (g.size ≤ b.keyId ∧ g.size ≤ b.valueId) ∧
        (∃ mark, g'.nodes[b.keyId]? = some ⟨mark, Tag.str, .scalar b.key⟩) ∧
        g'.Stores b.valueId b.value := by
  induction rows generalizing n r g with
  | nil =>
    rcases n with _ | n
    · cases hn
    obtain ⟨_, r', -, htake, hr'⟩ := h.take
    refine ⟨[], r', g, ?_, hr', ⟨le_refl _, id⟩, rfl, rfl, by simp⟩
    rw [blockEntries]
    exact (bind_ok h.peekKind).trans (bind_ok htake)
  | cons row rows ih =>
    have hlength : row.tokens.length + (rows.flatMap Row.all).length + 3 < n := by
      simp only [flatMap_cons, Row.all, length_append, length_cons] at hn ⊢
      omega
    obtain ⟨n, rfl⟩ : ∃ m, n = m + 2 := ⟨n - 2, by omega⟩
    rw [forall_mem_cons] at htag hrows
    have htokens : (row :: rows).flatMap Row.all ++ .blockEnd :: rest = .key ::
        .scalar row.key row.plain :: .value :: (row.tokens ++ (rows.flatMap Row.all ++
          .blockEnd :: rest)) := by
      simp only [flatMap_cons, Row.all, cons_append, append_assoc]
    rw [htokens] at h
    obtain ⟨k, rest', hnext, hk⟩ := @exists_next Row .key
      (fun row => .scalar row.key row.plain :: .value :: row.tokens) rows rest
    obtain ⟨mark, r₀, g₁, hr₀, hext₁, hnode, hkey⟩ := @Has.blockKey _ _ depth n g _ _ (hnext ▸ h)
    obtain ⟨r₁, g₂, hvalue, hr₁, hext₂, hstores⟩ :=
      @Has.blockValue _ _ _ _ _ (n + 1) _ _ _ hk hrows.1 (by omega) hdepth hr₀
    obtain ⟨branches, r', g', hread, hr', hext, hkeys, hentries, hbranches⟩ :=
      ih htag.2 hrows.2 (by omega : (rows.flatMap Row.all).length < n + 1) (hnext ▸ hr₁)
    refine ⟨⟨row.key, g.size, row.value, g₁.size⟩ :: branches, r', g',
      hkey.trans ((bind_ok hvalue).trans (bind_ok hread)), hr',
      hext₁.trans (hext₂.trans hext), ?_, ?_, ?_⟩
    · rw [map_cons, map_cons, hkeys]
    · rw [map_cons, map_cons, hentries]
      rfl
    · rw [forall_mem_cons]
      refine ⟨⟨⟨le_refl _, hext₁.size_le⟩, ⟨mark, ?_⟩, hext.stores hstores⟩, fun b hb => ?_⟩
      · rw [htag.1] at hnode
        exact (hext₂.trans hext).node hnode
      · obtain ⟨⟨hkeyId, hvalueId⟩, hb⟩ := hbranches b hb
        have hle := le_trans hext₁.size_le hext₂.size_le
        exact ⟨⟨le_trans hle hkeyId, le_trans hle hvalueId⟩, hb⟩

/-! ## Values -/

theorem reads_collection {tag : String} {empty : Content} {content : Nat → Reading Content}
    (hstarts : ∀ n, Starts n k tag empty (content n))
    (hcontent : ∀ {n r rest depth mark} {g : Graph}, ks.length ≤ n → depth + d ≤ maxDepth →
      Has r (ks ++ rest) depth (g.add ⟨mark, tag, empty⟩) →
      ∃ c r' g', content n r = .ok (c, r') ∧ Has r' rest depth g' ∧
        (g.add ⟨mark, tag, empty⟩).Extends g' ∧
        ((g'.setContent g.size c).nodes[g.size]? = some ⟨mark, tag, c⟩ →
          (g'.setContent g.size c).Stores g.size v)) :
    Reads (d + 1) v (k :: ks) := by
  intro n indentless r rest depth g hn hdepth h
  rcases n with _ | n
  · cases hn
  obtain ⟨mark, r₁, hnode, hr₁⟩ := @Has.starts _ k (ks ++ rest) depth n g indentless _ _ _
    (hstarts n) h
  obtain ⟨r₂, hr₂, hfill⟩ := @Has.collection _ _ rest _ _ mark tag empty (content n) hr₁ (by omega)
  obtain ⟨c, r₃, g₃, hread, hr₃, hext, hstores⟩ :=
    hcontent (le_of_succ_le_succ hn) (by omega) hr₂
  obtain ⟨r', hcollection, hr'⟩ := hfill hread hr₃
  refine ⟨r', _, hnode.trans hcollection, hr', hext.setContent c, hstores ?_⟩
  exact Graph.node_setContent (hext.node (g.node_add _))

theorem reads_list {items : List (Value × List TokenKind)}
    (hitems : ∀ e ∈ items, ReadsPart d e.1 e.2) :
    Reads (d + 1) (.list (items.map (·.1)))
      (.blockSequenceStart :: (itemTokens items ++ [.blockEnd])) := by
  refine reads_collection (fun _ => .list) ?_
  intro n r rest depth mark g hn hdepth h
  rw [append_assoc, singleton_append] at h
  rw [length_append] at hn
  obtain ⟨parts, r', g', hread, hr', hext, hvalues, hparts⟩ := h.blockItems hitems hn hdepth
  refine ⟨_, r', g', map_ok hread, hr', hext, fun hnode => ?_⟩
  have hlt : ∀ p ∈ parts, g.size < p.1 := fun p hp => by
    have hle := (hparts p hp).1
    rwa [Graph.size_add] at hle
  rw [← hvalues]
  exact .list hnode hlt fun p hp => (hparts p hp).2.setContent (hlt p hp)

theorem reads_map {rows : List Row} (hkeys : (rows.map (·.key)).Nodup)
    (htag : ∀ row ∈ rows, Yaml.scalarTag row.plain row.key = Tag.str)
    (hrows : ∀ row ∈ rows, ReadsPart d row.value row.tokens) :
    Reads (d + 1) (.map (rows.map fun row => (.str row.key, row.value)))
      (.blockMappingStart :: (rows.flatMap Row.all ++ [.blockEnd])) := by
  refine reads_collection (fun _ => .map) ?_
  intro n r rest depth mark g hn hdepth h
  rw [append_assoc, singleton_append] at h
  rw [length_append] at hn
  obtain ⟨branches, r', g', hread, hr', hext, hkeys', hentries, hbranches⟩ :=
    h.blockEntries htag hrows hn hdepth
  refine ⟨_, r', g', map_ok hread, hr', hext, fun hnode => ?_⟩
  have hlt : ∀ b ∈ branches, g.size < b.keyId ∧ g.size < b.valueId := fun b hb => by
    have hle := (hbranches b hb).1
    rwa [Graph.size_add] at hle
  rw [← hentries]
  refine .map hnode (hkeys' ▸ hkeys) hlt (fun b hb => ?_)
    fun b hb => (hbranches b hb).2.2.setContent (hlt b hb).2
  obtain ⟨mark, hmark⟩ := (hbranches b hb).2.1
  exact ⟨mark, (Graph.node_setContent_of_ne (ne_of_gt (hlt b hb).1)).trans hmark⟩

theorem reads_emptyList :
    Reads (d + 1) (.list []) [.flowSequenceStart, .flowSequenceEnd] := by
  refine reads_collection (fun _ => .flowList) ?_
  intro n r rest depth mark g hn hdepth h
  rcases n with _ | n
  · cases hn
  obtain ⟨_, r', -, htake, hr'⟩ := h.take
  have hread : flowItems (n + 1) true r = .ok ([], r') := by
    rw [flowItems]
    exact (bind_ok (Has.peekKind h)).trans (bind_ok htake)
  refine ⟨_, r', _, map_ok hread, hr', ⟨le_refl _, id⟩, fun hnode => ?_⟩
  exact @Graph.Stores.list _ _ mark [] hnode (by simp) (by simp)

theorem reads_emptyMap :
    Reads (d + 1) (.map []) [.flowMappingStart, .flowMappingEnd] := by
  refine reads_collection (fun _ => .flowMap) ?_
  intro n r rest depth mark g hn hdepth h
  rcases n with _ | n
  · cases hn
  obtain ⟨_, r', -, htake, hr'⟩ := h.take
  have hread : flowEntries (n + 1) true r = .ok ([], r') := by
    rw [flowEntries]
    exact (bind_ok (Has.peekKind h)).trans (bind_ok htake)
  refine ⟨_, r', _, map_ok hread, hr', ⟨le_refl _, id⟩, fun hnode => ?_⟩
  exact @Graph.Stores.map _ _ mark [] hnode (by simp) (by simp) (by simp) (by simp)

theorem reads_scalar {text : String} {plain : Bool}
    (hdenotes : Denotes (Yaml.scalarTag plain text) text v) :
    Reads d v [.scalar text plain] := by
  intro n indentless r rest depth g hn _ h
  rcases n with _ | n
  · cases hn
  obtain ⟨mark, r', g', hnode, hr', hext, hg'⟩ := @Has.scalar _ rest depth n g _ _ indentless h
  exact ⟨r', g', hnode, hr', hext, .scalar hg' hdenotes⟩

theorem readsPart_tokens (h : Tokens d v ks) : ReadsPart d v ks := by
  induction h with
  | null => exact .inl ⟨rfl, rfl⟩
  | scalar h => exact .inr ⟨⟨_, _, rfl, rfl⟩, reads_scalar h⟩
  | emptyList => exact .inr ⟨⟨_, _, rfl, rfl⟩, reads_emptyList⟩
  | emptyMap => exact .inr ⟨⟨_, _, rfl, rfl⟩, reads_emptyMap⟩
  | list _ ih => exact .inr ⟨⟨_, _, rfl, rfl⟩, reads_list ih⟩
  | map hkeys htag _ ih => exact .inr ⟨⟨_, _, rfl, rfl⟩, reads_map hkeys htag ih⟩

/-! ## Documents -/

theorem Has.documentStart {bound : Nat} (h : Has r [.streamEnd] depth g) :
    documentStart bound r = .ok (none, r) := by
  have hskip : skipDocumentEnds bound r = .ok ((), r) := by
    cases bound with
    | zero => rfl
    | succ bound =>
      rw [skipDocumentEnds]
      exact bind_ok h.peekKind
  obtain ⟨t, hkind, hpeek⟩ := h.peek
  rw [Reader.documentStart]
  refine (bind_ok hskip).trans ((bind_ok hpeek).trans ?_)
  rw [hkind]
  rfl

theorem Has.lastDocument {bound : Nat} {tail : List Char} {ends : List TokenKind} {root : NodeId}
    (hclosing : Closing tail ends) (h : Has r (ends ++ [.streamEnd]) depth g) :
    ∃ r', lastDocument bound root r = .ok (some root, r') ∧ Has r' [.streamEnd] depth g := by
  cases hclosing with
  | none =>
    refine ⟨r, ?_, h⟩
    rw [Reader.lastDocument]
    exact (bind_ok (Has.peekKind h)).trans (bind_ok h.documentStart)
  | mark =>
    obtain ⟨_, r', -, htake, hr'⟩ := Has.take h
    refine ⟨r', ?_, hr'⟩
    rw [Reader.lastDocument]
    refine (bind_ok (Has.peekKind h)).trans ?_
    exact (bind_ok htake).trans (bind_ok hr'.documentStart)

theorem Has.stream {bound : Nat} {tail : List Char} {ends : List TokenKind}
    (hopen : isOpening k) (hreads : Reads d v (k :: ks)) (hclosing : Closing tail ends)
    (hn : (k :: ks).length ≤ bound) (hd : d ≤ maxDepth)
    (h : Has r (.streamStart :: (k :: ks ++ ends ++ [.streamEnd])) 0 {}) :
    ∃ r', stream bound r = .ok (some 0, r') ∧ r'.graph.Stores 0 v := by
  obtain ⟨_, r₁, -, htake, hr₁⟩ := h.take
  rw [append_assoc] at hr₁
  obtain ⟨r₂, g₂, hnode, hr₂, -, hstores⟩ := @hreads bound false r₁ _ 0 {} hn (by omega) hr₁
  obtain ⟨r', hlast, hr'⟩ := @Has.lastDocument r₂ 0 g₂ bound tail ends 0 hclosing hr₂
  refine ⟨r', ?_, hr'.graph ▸ hstores⟩
  rw [Reader.stream]
  refine (bind_ok htake).trans ((bind_ok (Has.peekKind hr₁)).trans ?_)
  cases k with
  | directive | documentStart | streamEnd => cases hopen
  | _ => exact (bind_ok hnode).trans hlast

end FlowLock.Yaml.Reader

namespace FlowLock.Yaml

theorem Graph.ofTokens_eq {d : Nat} {v : Value} {k : TokenKind} {ks ends : List TokenKind}
    {tail : List Char} {tokens : List Token} (hopen : Reader.isOpening k)
    (hreads : Reader.Reads d v (k :: ks)) (hclosing : Closing tail ends) (hd : d ≤ Reader.maxDepth)
    (htokens : tokens.map (·.kind) = .streamStart :: (k :: ks ++ ends ++ [.streamEnd])) :
    ∃ g, Graph.ofTokens Schema.workflow tokens none = .ok (some (g, 0)) ∧ g.Stores 0 v := by
  have hlength : (k :: ks).length ≤ 4 * tokens.length + 4 := by
    have hlength := congrArg List.length htokens
    simp only [List.length_map, List.length_cons, List.length_append] at hlength ⊢
    omega
  have hstart : Reader.Has (Reader.start Schema.workflow tokens none) _ 0 {} :=
    ⟨htokens, rfl, rfl, rfl⟩
  obtain ⟨r', hstream, hstores⟩ := hstart.stream hopen hreads hclosing hlength hd
  refine ⟨r'.graph, ?_, hstores⟩
  rw [Graph.ofTokens]
  exact congrArg (Except.map _) hstream

end FlowLock.Yaml
