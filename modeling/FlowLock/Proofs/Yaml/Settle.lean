import FlowLock.Proofs.Yaml.Load

/-!
# Values put together

When all nodes are filled, their values are put together from the last node to the first.
Parts have greater numbers than the collection they are in, so each node finds the values
of its parts, and the first round settles every node.
-/

namespace FlowLock.Yaml.Loading

open Option List

variable {g : Graph} {s : Loading} {n m : NodeId} {v : Value} {made : Made}
  {values : Array (Option Value)} {part : NodeId → Option Value}

theorem mapM_part {parts : List (NodeId × Value)} (h : ∀ p ∈ parts, part p.1 = some p.2) :
    (parts.map (·.1)).mapM part = some (parts.map (·.2)) := by
  induction parts with
  | nil => rfl
  | cons p parts ih =>
    rw [forall_mem_cons] at h
    rw [map_cons, mapM_cons, h.1, ih h.2]
    rfl

theorem mapM_branches {branches : List Branch}
    (h : ∀ b ∈ branches, part b.keyId = some (.str b.key) ∧ part b.valueId = some b.value) :
    ((branches.map (·.ids)).mapM fun (k, v) => do pure (← part k, ← part v)) =
      some (branches.map (·.entry)) := by
  induction branches with
  | nil => rfl
  | cons b branches ih =>
    rw [forall_mem_cons] at h
    obtain ⟨⟨hkey, hvalue⟩, hrest⟩ := h
    rw [map_cons, mapM_cons, ih hrest]
    simp only [Branch.ids, hkey, hvalue]
    rfl

theorem assemble_eq (hfilled : Filled g s n made) (hstores : g.Stores n v)
    (hpart : ∀ {i w}, n < i → g.Stores i w → (s.made? i).isSome → part i = some w) :
    assemble part made = some v := by
  cases hfilled with
  | scalar hnode hmaker hvalue =>
    cases hstores with
    | scalar hnode' hdenotes =>
      obtain ⟨maker, hmaker', -, hvalue'⟩ := hdenotes
      obtain ⟨-, rfl, htext⟩ := Node.mk.inj (some.inj (hnode.symm.trans hnode'))
      obtain rfl := Content.scalar.inj htext
      obtain rfl := some.inj (hmaker.symm.trans hmaker')
      exact congrArg some (Except.ok.inj ((hvalue default).symm.trans (hvalue' default)))
    | list hnode' => cases hnode.symm.trans hnode'
    | map hnode' => cases hnode.symm.trans hnode'
  | list hnode hitems =>
    cases hstores with
    | scalar hnode' => cases hnode.symm.trans hnode'
    | @list _ _ parts hnode' hlt hparts =>
      obtain ⟨-, -, hcontent⟩ := Node.mk.inj (some.inj (hnode.symm.trans hnode'))
      obtain rfl := Content.sequence.inj hcontent
      rw [List.forall_mem_map] at hitems
      have hmapM := mapM_part fun p hp => hpart (hlt p hp) (hparts p hp) (hitems p hp)
      rw [assemble, hmapM]
      rfl
    | map hnode' => cases hnode.symm.trans hnode'
  | map hnode hentries =>
    cases hstores with
    | scalar hnode' => cases hnode.symm.trans hnode'
    | list hnode' => cases hnode.symm.trans hnode'
    | @map _ _ branches hnode' hkeys hlt hkey hvalues =>
      obtain ⟨-, -, hcontent⟩ := Node.mk.inj (some.inj (hnode.symm.trans hnode'))
      obtain rfl := Content.mapping.inj hcontent
      rw [List.forall_mem_map] at hentries
      have hmapM := mapM_branches fun b hb => by
        obtain ⟨mark, hb'⟩ := hkey b hb
        exact ⟨hpart (hlt b hb).1 (.scalar hb' (denotes_str b.key)) (hentries b hb).1,
          hpart (hlt b hb).2 (hvalues b hb) (hentries b hb).2⟩
      rw [assemble, hmapM]
      rfl

/-! ## A round over the nodes -/

/-- The values of the nodes from a number on; those before it have none yet. -/
structure Settled (g : Graph) (s : Loading) (m : Nat) (values : Array (Option Value)) : Prop where
  size : values.size = s.made.size
  before : ∀ n < m, values.getD n none = none
  after : ∀ {n v}, m ≤ n → g.Stores n v → (s.made? n).isSome = true → values.getD n none = some v

theorem getD_setIfInBounds_of_ne {x : Option Value} (h : n ≠ m) :
    (values.setIfInBounds m x).getD n none = values.getD n none := by
  rw [Array.getD_eq_getD_getElem?, Array.getD_eq_getD_getElem?,
    Array.getElem?_setIfInBounds_ne (Ne.symm h)]

theorem lt_size_of_made (h : (s.made? n).isSome) : n < s.made.size := by
  refine Nat.lt_of_not_le fun hle => ?_
  rw [made?, Array.getD_eq_getD_getElem?, Array.getElem?_eq_none hle] at h
  cases h

theorem Settled.node (h : Settled g s (m + 1) values)
    (hfilled : ∀ n made, s.made? n = some made → Filled g s n made) :
    Settled g s m (s.settleNode m values) := by
  have hbefore := h.before m (Nat.lt_succ_self m)
  cases hmade : s.made? m with
  | none =>
    rw [settleNode, hbefore, hmade]
    refine ⟨h.size, fun n hn => h.before n (Nat.lt_succ_of_lt hn), fun hn hstores hsome => ?_⟩
    refine h.after (Nat.lt_of_le_of_ne hn ?_) hstores hsome
    rintro rfl
    rw [hmade] at hsome
    cases hsome
  | some made =>
    rw [settleNode, hbefore, hmade]
    refine ⟨Array.size_setIfInBounds.trans h.size, fun n hn => ?_, fun {n v} hn hstores hsome => ?_⟩
    · rw [getD_setIfInBounds_of_ne (Nat.ne_of_lt hn)]
      exact h.before n (Nat.lt_succ_of_lt hn)
    · by_cases hnm : n = m
      · subst hnm
        have hlt : n < values.size := h.size ▸ lt_size_of_made hsome
        rw [Array.getD_eq_getD_getElem?, Array.getElem?_setIfInBounds_self_of_lt hlt,
          assemble_eq (hfilled n made hmade) hstores h.after]
        rfl
      · rw [getD_setIfInBounds_of_ne hnm]
        exact h.after (Nat.lt_of_le_of_ne hn (Ne.symm hnm)) hstores hsome

theorem Settled.foldr (h : Settled g s m values)
    (hfilled : ∀ n made, s.made? n = some made → Filled g s n made) :
    Settled g s 0 ((range m).foldr s.settleNode values) := by
  induction m generalizing values with
  | zero => exact h
  | succ m ih =>
    rw [range_succ, foldr_append]
    exact ih (h.node hfilled)

theorem settled_replicate : Settled g s s.made.size (Array.replicate s.made.size none) where
  size := Array.size_replicate
  before n hn := by
    rw [Array.getD_eq_getD_getElem?, Array.getElem?_replicate, if_pos hn]
    rfl
  after hn _ hsome := absurd (lt_size_of_made hsome) (Nat.not_lt.mpr hn)

/-! ## Further rounds -/

theorem settleNode_of_some (h : values.getD n none = some v) :
    (s.settleNode m values).getD n none = some v := by
  rw [settleNode]
  split
  case h_1 hnone _ =>
    rw [getD_setIfInBounds_of_ne, h]
    rintro rfl
    rw [h] at hnone
    cases hnone
  case h_2 => exact h

theorem settleOnce_of_some (h : values.getD n none = some v) :
    (s.settleOnce values).getD n none = some v := by
  rw [settleOnce]
  induction range s.made.size with
  | nil => exact h
  | cons m ms ih => exact settleNode_of_some ih

theorem settle_of_some {bound : Nat} (h : values.getD n none = some v) :
    (s.settle bound values).getD n none = some v := by
  induction bound generalizing values with
  | zero => exact h
  | succ bound ih =>
    rw [settle]
    split
    · exact settleOnce_of_some h
    · exact ih (settleOnce_of_some h)

theorem value_eq (hfilled : ∀ n made, s.made? n = some made → Filled g s n made)
    (hstores : g.Stores n v) (hmade : (s.made? n).isSome) : s.value n = v := by
  have hround : (s.settleOnce (Array.replicate s.made.size none)).getD n none = some v :=
    (settled_replicate.foldr hfilled).after (Nat.zero_le n) hstores hmade
  have hvalue : (s.settle (s.made.size + 1) (Array.replicate s.made.size none)).getD n none =
      some v := by
    rw [settle]
    split
    · exact hround
    · exact settle_of_some hround
  rw [value, hvalue]

end FlowLock.Yaml.Loading
