import FlowLock.Proofs.Outcome
import FlowLock.Proofs.Yaml.Node
import FlowLock.Yaml.Load

/-!
# The values of nodes

A node that stands for a value is made into this value.  Collections are filled in waves:
what a collection holds is made when it is filled, and the collections among it are the
next wave.  Parts have greater numbers than the collection they are in, so there are no
more waves than nodes, and one round from the last node to the first puts all values
together.
-/

namespace FlowLock.Yaml

open List Nat

/-! ## Merge keys -/

namespace Graph

variable {g : Graph} {n : NodeId} {node : Node} {mark : Mark} {tag : String}
  {entries : List (NodeId × NodeId)}

theorem node_eq (h : g.nodes[n]? = some node) : g.node n = node := by
  rw [Graph.node, Array.getD_eq_getD_getElem?, h]
  rfl

theorem lt_size (h : g.nodes[n]? = some node) : n < g.size := (Array.getElem?_eq_some_iff.mp h).1

theorem entries_eq (h : g.nodes[n]? = some ⟨mark, tag, .mapping entries⟩) :
    g.entries n = entries := by
  rw [Graph.entries, node_eq h]

theorem setContent_self (h : g.nodes[n]? = some node) : g.setContent n node.content = g := by
  obtain ⟨nodes⟩ := g
  refine congrArg mk (Array.ext_getElem? fun i => ?_)
  rw [Array.getElem?_modify]
  split
  case isTrue heq =>
    rw [← heq]
    exact (congrArg (Option.map _) h).trans h.symm
  case isFalse => rfl

theorem flatten_eq {bound : Nat} (h : g.nodes[n]? = some ⟨mark, tag, .mapping entries⟩)
    (hmerge : ∀ e ∈ entries, g.hasTag e.1 Tag.merge = false)
    (hvalue : ∀ e ∈ entries, g.hasTag e.1 Tag.value = false) : g.flatten bound n = .ok g := by
  have hfirst : g.firstMerge? n = none := by
    have hfind : (entries.findIdx? fun e => g.hasTag e.1 Tag.merge) = none := by
      rw [findIdx?_eq_none_iff]
      exact hmerge
    rw [firstMerge?, entries_eq h, hfind]
  have hplain : g.plainKeys n = g := by
    have hfold : ∀ es ⊆ entries, es.foldl
        (fun g e => if g.hasTag e.1 Tag.value then g.setTag e.1 Tag.str else g) g = g := by
      intro es hes
      induction es with
      | nil => rfl
      | cons e es ih =>
        rw [cons_subset] at hes
        rw [foldl_cons, hvalue e hes.1, if_neg Bool.false_ne_true, ih hes.2]
    rw [plainKeys, entries_eq h, hfold entries (Subset.refl _)]
  rw [flatten, flattenWith, hfirst, entries_eq h, nil_append]
  exact congrArg Except.ok ((congrArg (plainKeys · n) (setContent_self h)).trans hplain)

theorem flatten_texts {bound : Nat} (h : g.nodes[n]? = some ⟨mark, tag, .mapping entries⟩)
    (htexts : ∀ e ∈ entries, ∃ mark text, g.nodes[e.1]? = some ⟨mark, Tag.str, .scalar text⟩) :
    g.flatten bound n = .ok g := by
  have htag : ∀ {tag}, tag ≠ Tag.str → ∀ e ∈ entries, g.hasTag e.1 tag = false := by
    intro tag htag e he
    obtain ⟨mark, text, he⟩ := htexts e he
    rw [hasTag, node_eq he]
    exact beq_eq_false_iff_ne.mpr htag.symm
  exact flatten_eq h (htag (by decide)) (htag (by decide))

end Graph

namespace Loading

open Steps (bind_ok)

variable {g : Graph} {s s' : Loading} {n k : NodeId} {v : Value} {wave : List NodeId} {made : Made}
  {tag : String} {maker : Maker} {content : Content}

/-! ## What is made -/

inductive Filled (g : Graph) (s : Loading) (n : NodeId) : Made → Prop
  | scalar {mark : Mark} {tag text : String} {maker : Maker} {v : Value}
    (hnode : g.nodes[n]? = some ⟨mark, tag, .scalar text⟩) (hmaker : Maker.ofTag? tag = some maker)
    (hvalue : ∀ mark, scalarValue maker mark text = .ok v) :
    Filled g s n (.scalar v (identity g n maker text))
  | list {mark : Mark} {items : List NodeId}
    (hnode : g.nodes[n]? = some ⟨mark, Tag.seq, .sequence items⟩)
    (hitems : ∀ i ∈ items, (s.made? i).isSome = true) : Filled g s n (.list items)
  | map {mark : Mark} {entries : List (NodeId × NodeId)}
    (hnode : g.nodes[n]? = some ⟨mark, Tag.map, .mapping entries⟩)
    (hentries : ∀ e ∈ entries, (s.made? e.1).isSome = true ∧ (s.made? e.2).isSome = true) :
    Filled g s n (.map entries)

def Grows (s s' : Loading) : Prop := ∀ {n}, (s.made? n).isSome = true → (s'.made? n).isSome = true

theorem Filled.mono (h : Filled g s n made) (hgrows : Grows s s') : Filled g s' n made := by
  cases h with
  | scalar hnode hmaker hvalue => exact .scalar hnode hmaker hvalue
  | list hnode hitems => exact .list hnode fun i hi => hgrows (hitems i hi)
  | map hnode hentries =>
    exact .map hnode fun e he => ⟨hgrows (hentries e he).1, hgrows (hentries e he).2⟩

/-- A collection that stands for a value. -/
def IsBlock (g : Graph) (n : NodeId) : Prop :=
  (∃ v, g.Stores n v) ∧ ∀ mark tag text, g.nodes[n]? ≠ some ⟨mark, tag, .scalar text⟩

/-- Every node that has been met is filled, is one of the collections that are to be filled
now, or waits with a number from `k` on. -/
structure Sound (g : Graph) (s : Loading) (k : Nat) (wave : List NodeId) : Prop where
  graph : s.graph = g
  size : s.made.size = g.size
  now : ∀ n ∈ wave, k ≤ n + 1 ∧ IsBlock g n
  waiting : ∀ n ∈ s.waiting, k ≤ n ∧ IsBlock g n
  filled : ∀ n made, s.made? n = some made → Filled g s n made ∨ n ∈ s.waiting ∨ n ∈ wave

/-! ## Single nodes -/

def set (s : Loading) (n : NodeId) (made : Made) : Loading :=
  { s with made := s.made.setIfInBounds n (some made) }

theorem made?_set (hn : n < s.made.size) : (s.set n made).made? n = some made := by
  rw [made?, set, Array.getD_eq_getD_getElem?, Array.getElem?_setIfInBounds_self_of_lt hn]
  rfl

theorem made?_set_of_ne {m : NodeId} (h : m ≠ n) : (s.set n made).made? m = s.made? m := by
  rw [made?, made?, set, Array.getD_eq_getD_getElem?, Array.getD_eq_getD_getElem?,
    Array.getElem?_setIfInBounds_ne (Ne.symm h)]

theorem grows_set (hn : n < s.made.size) : Grows s (s.set n made) := by
  intro m hm
  by_cases h : m = n
  · rw [h, made?_set hn]
    rfl
  · rwa [made?_set_of_ne h]

theorem Sound.set {wave' : List NodeId} (h : Sound g s k wave) (hn : n < g.size)
    (hfilled : Filled g (s.set n made) n made) (hsub : wave' ⊆ wave)
    (hrest : ∀ m ∈ wave, m ≠ n → m ∈ wave') : Sound g (s.set n made) k wave' where
  graph := h.graph
  size := Array.size_setIfInBounds.trans h.size
  now m hm := h.now m (hsub hm)
  waiting := h.waiting
  filled := by
    have hlt : n < s.made.size := h.size ▸ hn
    intro m made' hm
    by_cases hmn : m = n
    · subst hmn
      rw [made?_set hlt] at hm
      exact .inl (Option.some.inj hm ▸ hfilled)
    · rw [made?_set_of_ne hmn] at hm
      obtain hm | hm | hm := h.filled m made' hm
      · exact .inl (hm.mono (grows_set hlt))
      · exact .inr (.inl hm)
      · exact .inr (.inr (hrest m hm hmn))

theorem Sound.wait (h : Sound g s k wave) (hn : n < g.size) (hk : k ≤ n) (hblock : IsBlock g n) :
    Sound g { s.set n (.list []) with waiting := n :: s.waiting } k wave where
  graph := h.graph
  size := Array.size_setIfInBounds.trans h.size
  now := h.now
  waiting := forall_mem_cons.mpr ⟨⟨hk, hblock⟩, h.waiting⟩
  filled := by
    have hlt : n < s.made.size := h.size ▸ hn
    intro m made' hm
    by_cases hmn : m = n
    · exact .inr (.inl (hmn ▸ mem_cons_self))
    · have hm' : s.made? m = some made' := (made?_set_of_ne hmn).symm.trans hm
      obtain hm | hm | hm := h.filled m made' hm'
      · exact .inl (hm.mono (grows_set hlt))
      · exact .inr (.inl (mem_cons_of_mem _ hm))
      · exact .inr (.inr hm)

theorem make_of_made (h : (s.made? n).isSome) : make n s = .ok ((), s) := by
  obtain ⟨made, hmade⟩ := Option.isSome_iff_exists.mp h
  rw [make]
  refine (bind_ok rfl).trans ?_
  rw [hmade]
  rfl

theorem make_scalar (hgraph : s.graph = g) (hmade : s.made? n = none)
    (hnode : g.nodes[n]? = some ⟨mark, tag, .scalar text⟩) (hmaker : Maker.ofTag? tag = some maker)
    (hflat : maker.isCollection = false) :
    make n s = (scalarValue maker mark text).map fun v =>
      ((), s.set n (.scalar v (identity g n maker text))) := by
  subst hgraph
  have htext : s.graph.scalarText (s.graph.size + 1) n = .ok text := by
    rw [Graph.scalarText, Graph.node_eq hnode]
  have hscalar : makeScalar n maker s = (scalarValue maker mark text).map fun v =>
      ((), s.set n (.scalar v (identity s.graph n maker text))) := by
    rw [makeScalar]
    refine (bind_ok rfl).trans ?_
    rw [htext]
    refine (bind_ok rfl).trans ?_
    have hshape : (maker == .timestamp &&
        Node.shape ⟨mark, tag, .scalar text⟩ != Shape.scalar) = false := Bool.and_false _
    rw [Graph.node_eq hnode, hshape, if_neg Bool.false_ne_true]
    cases scalarValue maker mark text <;> rfl
  rw [make]
  refine (bind_ok rfl).trans ?_
  rw [hmade, Graph.node_eq hnode, hmaker]
  dsimp only
  rw [hflat]
  exact hscalar

theorem make_collection (hgraph : s.graph = g) (hmade : s.made? n = none)
    (hnode : g.nodes[n]? = some ⟨mark, tag, content⟩) (hmaker : Maker.ofTag? tag = some maker)
    (hmany : maker.isCollection) :
    make n s = .ok ((), { s.set n (.list []) with waiting := n :: s.waiting }) := by
  subst hgraph
  rw [make]
  refine (bind_ok rfl).trans ?_
  rw [hmade, Graph.node_eq hnode, hmaker]
  dsimp only
  rw [hmany]
  rfl

theorem isBlock_of_node (hstores : g.Stores n v) (hnode : g.nodes[n]? = some ⟨mark, tag, content⟩)
    (hcontent : content.shape ≠ .scalar) : IsBlock g n := by
  refine ⟨⟨v, hstores⟩, fun mark' tag' text hscalar => hcontent ?_⟩
  obtain ⟨-, -, rfl⟩ := Node.mk.inj (Option.some.inj (hnode.symm.trans hscalar))
  rfl

theorem Sound.make (h : Sound g s k wave) (hstores : g.Stores n v) (hk : k ≤ n) :
    ∃ s', make n s = .ok ((), s') ∧ Sound g s' k wave ∧ Grows s s' ∧ (s'.made? n).isSome := by
  cases hmade : s.made? n with
  | some made =>
    have hsome : (s.made? n).isSome := by rw [hmade]; rfl
    exact ⟨s, make_of_made hsome, h, id, hsome⟩
  | none =>
    -- What happens to a collection is the same for lists and mappings.
    have hblock : ∀ {mark tag content maker}, g.nodes[n]? = some ⟨mark, tag, content⟩ →
        content.shape ≠ .scalar → Maker.ofTag? tag = some maker → maker.isCollection →
        ∃ s', Loading.make n s = .ok ((), s') ∧ Sound g s' k wave ∧ Grows s s' ∧
          (s'.made? n).isSome := by
      intro mark tag content maker hnode hcontent hmaker hmany
      have hn := Graph.lt_size hnode
      have hlt : n < s.made.size := h.size ▸ hn
      refine ⟨_, make_collection h.graph hmade hnode hmaker hmany,
        h.wait hn hk (isBlock_of_node hstores hnode hcontent), grows_set hlt, ?_⟩
      exact congrArg Option.isSome (made?_set hlt)
    cases hstores with
    | scalar hnode hdenotes =>
      obtain ⟨maker, hmaker, hflat, hvalue⟩ := hdenotes
      have hn := Graph.lt_size hnode
      have hlt : n < s.made.size := h.size ▸ hn
      have hmake := make_scalar h.graph hmade hnode hmaker hflat
      rw [hvalue] at hmake
      refine ⟨_, hmake, h.set hn (.scalar hnode hmaker hvalue) (List.Subset.refl _)
        fun m hm _ => hm, grows_set hlt, ?_⟩
      exact congrArg Option.isSome (made?_set hlt)
    | list hnode => exact hblock hnode nofun (by decide : _ = some Maker.seq) rfl
    | map hnode => exact hblock hnode nofun (by decide : _ = some Maker.map) rfl

theorem Sound.forM_make {items : List NodeId} (h : Sound g s k wave)
    (hitems : ∀ i ∈ items, k ≤ i ∧ ∃ v, g.Stores i v) :
    ∃ s', items.forM Loading.make s = .ok ((), s') ∧ Sound g s' k wave ∧ Grows s s' ∧
      ∀ i ∈ items, (s'.made? i).isSome := by
  induction items generalizing s with
  | nil => exact ⟨s, rfl, h, id, by simp⟩
  | cons i items ih =>
    rw [forall_mem_cons] at hitems
    obtain ⟨⟨hk, v, hstores⟩, hitems⟩ := hitems
    obtain ⟨s₁, hmake, hs₁, hgrows, hmade⟩ := h.make hstores hk
    obtain ⟨s', hrest, hs', hgrows', hall⟩ := ih hs₁ hitems
    refine ⟨s', ?_, hs', fun hn => hgrows' (hgrows hn), forall_mem_cons.mpr ⟨hgrows' hmade, hall⟩⟩
    exact (bind_ok hmake).trans hrest

/-! ## Mappings -/

variable {mark : Mark} {text : String} {branches : List Branch} {entries : List (NodeId × NodeId)}

theorem Sound.made_key (h : Sound g s k wave)
    (hnode : g.nodes[n]? = some ⟨mark, Tag.str, .scalar text⟩) (hmade : (s.made? n).isSome) :
    s.made? n = some (.scalar (.str text) n) := by
  obtain ⟨made, hmade⟩ := Option.isSome_iff_exists.mp hmade
  rw [hmade]
  obtain hfilled | hwaits | hwaits := h.filled n made hmade
  · cases hfilled with
    | scalar hnode' hmaker hvalue =>
      obtain ⟨-, rfl, htext⟩ := Node.mk.inj (Option.some.inj (hnode.symm.trans hnode'))
      obtain rfl := Content.scalar.inj htext
      obtain rfl : Maker.str = _ := Option.some.inj ((by decide : some _ = _).trans hmaker)
      obtain rfl := Except.ok.inj (hvalue mark)
      rfl
    | list hnode' => cases hnode.symm.trans hnode'
    | map hnode' => cases hnode.symm.trans hnode'
  · exact absurd hnode ((h.waiting n hwaits).2.2 mark Tag.str text)
  · exact absurd hnode ((h.now n hwaits).2.2 mark Tag.str text)

theorem Sound.makeKey (h : Sound g s k wave)
    (hnode : g.nodes[n]? = some ⟨mark, Tag.str, .scalar text⟩) (hk : k ≤ n) :
    ∃ s', makeKey n s = .ok ((), s') ∧ Sound g s' k wave ∧ Grows s s' ∧ (s'.made? n).isSome := by
  obtain ⟨s', hmake, hs', hgrows, hmade⟩ := h.make (.scalar hnode (denotes_str text)) hk
  refine ⟨s', ?_, hs', hgrows, hmade⟩
  rw [Loading.makeKey]
  refine (bind_ok hmake).trans ((bind_ok rfl).trans ?_)
  rw [hs'.made_key hnode hmade]
  rfl

theorem Sound.forM_entries (h : Sound g s k wave)
    (hkey : ∀ b ∈ branches, k ≤ b.keyId ∧
      ∃ mark, g.nodes[b.keyId]? = some ⟨mark, Tag.str, .scalar b.key⟩)
    (hvalue : ∀ b ∈ branches, k ≤ b.valueId ∧ g.Stores b.valueId b.value) :
    ∃ s', (branches.map (·.ids)).forM makeEntry s = .ok ((), s') ∧ Sound g s' k wave ∧ Grows s s' ∧
      ∀ b ∈ branches, (s'.made? b.keyId).isSome ∧ (s'.made? b.valueId).isSome := by
  induction branches generalizing s with
  | nil => exact ⟨s, rfl, h, id, by simp⟩
  | cons b branches ih =>
    rw [forall_mem_cons] at hkey hvalue
    obtain ⟨⟨hle, mark, hnode⟩, hkey⟩ := hkey
    obtain ⟨⟨hle', hstores⟩, hvalue⟩ := hvalue
    obtain ⟨s₁, hmake₁, hs₁, hgrows₁, hmade₁⟩ := h.makeKey hnode hle
    obtain ⟨s₂, hmake₂, hs₂, hgrows₂, hmade₂⟩ := hs₁.make hstores hle'
    obtain ⟨s', hrest, hs', hgrows, hall⟩ := ih hs₂ hkey hvalue
    refine ⟨s', ?_, hs', fun hn => hgrows (hgrows₂ (hgrows₁ hn)), forall_mem_cons.mpr
      ⟨⟨hgrows (hgrows₂ hmade₁), hgrows hmade₂⟩, hall⟩⟩
    exact (bind_ok ((bind_ok hmake₁).trans hmake₂)).trans hrest

theorem putEntry_of_new {b : Branch} (hmade : s.made? b.keyId = some (.scalar (.str b.key) b.keyId))
    (hnew : ∀ d ∈ branches, s.made? d.keyId = some (.scalar (.str d.key) d.keyId) ∧ d.key ≠ b.key) :
    s.putEntry (branches.map (·.ids)) b.ids = (branches ++ [b]).map (·.ids) := by
  rw [putEntry, map_append]
  refine if_neg fun hany => ?_
  obtain ⟨old, hold, hsame⟩ := any_eq_true.mp hany
  obtain ⟨d, hd, rfl⟩ := mem_map.mp hold
  obtain ⟨hd, hne⟩ := hnew d hd
  dsimp only [Branch.ids] at hsame
  rw [hmade, hd] at hsame
  obtain hid | hkey := Bool.or_eq_true_iff.mp hsame
  · rw [beq_iff_eq.mp hid, hmade] at hd
    exact hne (Value.str.inj (Made.scalar.inj (Option.some.inj hd)).1).symm
  · exact hne (beq_iff_eq.mp hkey)

theorem foldl_putEntry {done : List Branch}
    (hmade : ∀ b ∈ done ++ branches, s.made? b.keyId = some (.scalar (.str b.key) b.keyId))
    (hkeys : ((done ++ branches).map (·.key)).Nodup) :
    (branches.map (·.ids)).foldl s.putEntry (done.map (·.ids)) = (done ++ branches).map (·.ids) := by
  induction branches generalizing done with
  | nil => rw [append_nil]; rfl
  | cons b branches ih =>
    have hsplit : done ++ b :: branches = done ++ [b] ++ branches := by
      rw [append_assoc, singleton_append]
    have hnew : ∀ d ∈ done, d.key ≠ b.key := by
      rw [map_append, nodup_append] at hkeys
      exact fun d hd => hkeys.2.2 d.key (mem_map_of_mem hd) b.key mem_cons_self
    rw [map_cons, foldl_cons, putEntry_of_new (hmade b (by simp))
      fun d hd => ⟨hmade d (by simp [hd]), hnew d hd⟩]
    rw [hsplit] at hmade hkeys ⊢
    exact ih hmade hkeys

theorem fillMapping_eq (hgraph : s.graph = g)
    (hnode : g.nodes[n]? = some ⟨mark, Tag.map, .mapping entries⟩)
    (htexts : ∀ e ∈ entries, ∃ mark text, g.nodes[e.1]? = some ⟨mark, Tag.str, .scalar text⟩) :
    fillMapping n s = (do
      entries.forM makeEntry
      pure (entries.foldl (← get).putEntry []) : Loader (List (NodeId × NodeId))) s := by
  have hcontent : (s.graph.node n).content = .mapping entries := by
    rw [hgraph, Graph.node_eq hnode]
  have hflatten : s.graph.flatten s.entryCount n = .ok g := by
    rw [hgraph]
    exact Graph.flatten_texts hnode htexts
  have hmodify : (modify fun s => { s with graph := g } : Loader Unit) s = .ok ((), s) := by
    rw [← hgraph]
    rfl
  rw [fillMapping]
  refine (bind_ok rfl).trans ?_
  rw [hflatten, hcontent]
  refine (bind_ok rfl).trans ((bind_ok hmodify).trans ?_)
  rw [Graph.entries_eq hnode]

theorem Sound.fillMapping (h : Sound g s k wave)
    (hnode : g.nodes[n]? = some ⟨mark, Tag.map, .mapping (branches.map (·.ids))⟩)
    (hkeys : (branches.map (·.key)).Nodup)
    (hkey : ∀ b ∈ branches, k ≤ b.keyId ∧
      ∃ mark, g.nodes[b.keyId]? = some ⟨mark, Tag.str, .scalar b.key⟩)
    (hvalue : ∀ b ∈ branches, k ≤ b.valueId ∧ g.Stores b.valueId b.value) :
    ∃ s', fillMapping n s = .ok (branches.map (·.ids), s') ∧ Sound g s' k wave ∧ Grows s s' ∧
      ∀ b ∈ branches, (s'.made? b.keyId).isSome ∧ (s'.made? b.valueId).isSome := by
  have htexts : ∀ e ∈ branches.map (·.ids),
      ∃ mark text, g.nodes[e.1]? = some ⟨mark, Tag.str, .scalar text⟩ := by
    rw [forall_mem_map]
    intro b hb
    obtain ⟨-, mark, hb⟩ := hkey b hb
    exact ⟨mark, b.key, hb⟩
  obtain ⟨s', hforM, hs', hgrows, hmade⟩ := h.forM_entries hkey hvalue
  have hput : (branches.map (·.ids)).foldl s'.putEntry [] = branches.map (·.ids) := by
    refine @foldl_putEntry s' branches [] (fun b hb => ?_) hkeys
    obtain ⟨-, mark, hb'⟩ := hkey b hb
    exact hs'.made_key hb' (hmade b hb).1
  refine ⟨s', ?_, hs', hgrows, hmade⟩
  refine (fillMapping_eq h.graph hnode htexts).trans ((bind_ok hforM).trans ((bind_ok rfl).trans ?_))
  rw [hput]
  rfl

/-! ## Waves -/

theorem fill_map (hgraph : s.graph = g)
    (hnode : g.nodes[n]? = some ⟨mark, Tag.map, .mapping entries⟩) :
    fill n s = (do put n (.map (← fillMapping n)) : Loader Unit) s := by
  rw [fill]
  refine (bind_ok rfl).trans ?_
  rw [hgraph, Graph.node_eq hnode]
  rfl

theorem Sound.fill (h : Sound g s k (n :: wave)) :
    ∃ s', fill n s = .ok ((), s') ∧ Sound g s' k wave ∧ Grows s s' := by
  obtain ⟨hk, ⟨v, hstores⟩, hscalar⟩ := h.now n mem_cons_self
  -- The node is filled in the state in which its parts are made.
  have hput : ∀ {s' made}, Sound g s' k (n :: wave) → Grows s s' → n < g.size →
      Filled g s' n made → Sound g (s'.set n made) k wave ∧ Grows s (s'.set n made) := by
    intro s' made hs' hgrows hn hfilled
    have hgrows' : Grows s' (s'.set n made) := grows_set (hs'.size ▸ hn)
    refine ⟨hs'.set hn (hfilled.mono hgrows') (subset_cons_self _ _) ?_,
      fun hm => hgrows' (hgrows hm)⟩
    exact fun m hm hne => (mem_cons.mp hm).resolve_left hne
  cases hstores with
  | scalar hnode => exact absurd hnode (hscalar _ _ _)
  | @list _ mark parts hnode hlt hparts =>
    obtain ⟨s', hforM, hs', hgrows, hmade⟩ := @Sound.forM_make _ _ _ _ (parts.map (·.1)) h (by
      rw [forall_mem_map]
      exact fun p hp => ⟨le_trans hk (hlt p hp), _, hparts p hp⟩)
    refine ⟨_, ?_, hput hs' hgrows (Graph.lt_size hnode) (.list hnode hmade)⟩
    rw [Loading.fill]
    refine (bind_ok rfl).trans ?_
    rw [h.graph, Graph.node_eq hnode]
    exact bind_ok hforM
  | @map _ mark branches hnode hkeys hlt hkey hvalues =>
    obtain ⟨s', hfill, hs', hgrows, hmade⟩ := h.fillMapping hnode hkeys
      (fun b hb => ⟨le_trans hk (hlt b hb).1, hkey b hb⟩)
      (fun b hb => ⟨le_trans hk (hlt b hb).2, hvalues b hb⟩)
    refine ⟨_, ?_, hput hs' hgrows (Graph.lt_size hnode)
      (.map hnode (forall_mem_map.mpr hmade))⟩
    exact (fill_map h.graph hnode).trans (bind_ok hfill)

theorem Sound.forM_fill (h : Sound g s k wave) :
    ∃ s', wave.forM Loading.fill s = .ok ((), s') ∧ Sound g s' k [] ∧ Grows s s' := by
  induction wave generalizing s with
  | nil => exact ⟨s, rfl, h, id⟩
  | cons n wave ih =>
    obtain ⟨s₁, hfill, hs₁, hgrows₁⟩ := h.fill
    obtain ⟨s', hrest, hs', hgrows⟩ := ih hs₁
    exact ⟨s', (bind_ok hfill).trans hrest, hs', fun hm => hgrows (hgrows₁ hm)⟩

theorem Sound.next (h : Sound g s k []) (hsub : s.waiting ⊆ wave) (hwave : wave ⊆ s.waiting) :
    Sound g { s with waiting := [] } (k + 1) wave where
  graph := h.graph
  size := h.size
  now n hn := by
    obtain ⟨hk, hblock⟩ := h.waiting n (hwave hn)
    exact ⟨succ_le_succ hk, hblock⟩
  waiting := by simp
  filled n made hmade := by
    obtain hfilled | hwaits | hwaits := h.filled n made hmade
    · exact .inl (hfilled.mono id)
    · exact .inr (.inr (hsub hwaits))
    · cases hwaits

theorem lt_size_of_isBlock (h : IsBlock g n) : n < g.size := by
  obtain ⟨⟨v, hstores⟩, -⟩ := h
  cases hstores with
  | scalar hnode => exact Graph.lt_size hnode
  | list hnode => exact Graph.lt_size hnode
  | map hnode => exact Graph.lt_size hnode

/-- Waves of collections are filled until none waits.  The numbers in a wave are greater
than those in the wave before, so the bound is not reached. -/
theorem Sound.fillAll {bound : Nat} (h : Sound g s (k + 1) wave) (hwaiting : s.waiting = [])
    (hbound : g.size < bound + k) (hne : bound = 0 → wave ≠ []) :
    ∃ s' k', fillAll bound wave s = .ok ((), s') ∧ Sound g s' k' [] ∧ s'.waiting = [] ∧
      Grows s s' := by
  induction bound generalizing s k wave with
  | zero =>
    obtain ⟨n, hn⟩ := exists_mem_of_ne_nil wave (hne rfl)
    obtain ⟨hk, hblock⟩ := h.now n hn
    exact absurd (lt_of_le_of_lt (le_of_succ_le_succ hk) (lt_size_of_isBlock hblock))
      (by omega)
  | succ bound ih =>
    obtain ⟨s₁, hforM, hs₁, hgrows₁⟩ := h.forM_fill
    cases hnext : s₁.waiting with
    | nil =>
      refine ⟨s₁, _, ?_, hs₁, hnext, hgrows₁⟩
      rw [Loading.fillAll]
      refine (bind_ok hforM).trans ((bind_ok rfl).trans ?_)
      rw [hnext]
      rfl
    | cons m next =>
      have hwave := @Sound.next _ _ _ s₁.waiting.reverse hs₁ (fun m hm => mem_reverse.mpr hm)
        fun m hm => mem_reverse.mp hm
      obtain ⟨s', k', hfill, hs', hdone, hgrows⟩ := ih hwave rfl (by omega) (by simp [hnext])
      refine ⟨s', k', ?_, hs', hdone, fun hm => hgrows (hgrows₁ hm)⟩
      rw [Loading.fillAll]
      refine (bind_ok hforM).trans ((bind_ok rfl).trans ?_)
      rw [hnext] at hfill ⊢
      exact (bind_ok rfl).trans hfill

theorem made?_start (g : Graph) (n : NodeId) : (start g).made? n = none := by
  rw [made?, start, Array.getD_eq_getD_getElem?, Array.getElem?_replicate]
  split <;> rfl

theorem sound_start (g : Graph) : Sound g (start g) 0 [] where
  graph := rfl
  size := Array.size_replicate
  now := by simp
  waiting := by simp [start]
  filled n made hmade := by
    rw [made?_start] at hmade
    cases hmade

theorem makeAll_ok (h : g.Stores n v) :
    ∃ s, makeAll n (start g) = .ok ((), s) ∧ (s.made? n).isSome ∧
      ∀ m made, s.made? m = some made → Filled g s m made := by
  obtain ⟨s₁, hmake, hs₁, -, hmade⟩ := (sound_start g).make h (zero_le n)
  have hwave := hs₁.next (Subset.refl _) (Subset.refl _)
  obtain ⟨s, k, hfill, hs, hdone, hgrows⟩ :=
    @Sound.fillAll _ _ _ _ (s₁.graph.size + 1) hwave rfl (by rw [hs₁.graph]; omega) nofun
  refine ⟨s, ?_, hgrows hmade, fun m made hm => ?_⟩
  · rw [makeAll]
    exact (bind_ok hmake).trans ((bind_ok rfl).trans ((bind_ok rfl).trans hfill))
  · obtain hfilled | hwaits | hwaits := hs.filled m made hm
    · exact hfilled
    · rw [hdone] at hwaits
      cases hwaits
    · cases hwaits

end Loading

end FlowLock.Yaml
