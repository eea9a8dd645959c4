import Mathlib.Data.List.Nodup
import Mathlib.Data.Set.Insert
import Mathlib.Logic.Relation

/-!
# Depth-first order

The order in which a graph is met when the successors of a node are visited from left
to right, each together with all that is new below it, before the next one.  It is a
relation and says nothing about how the order is found: there is no stack, no bound and
no failure in it, so it is what a traversal is compared with.

Successors are a function to lists, because their order counts.  Nodes that were met
before are skipped, so the relation is defined on every graph, cyclic or not.
-/

namespace FlowLock

open List Relation

variable {α : Type}

/-- The nodes met for the first time on a visit of `pending` and everything below, from
left to right. -/
inductive DepthFirst (next : α → List α) : List α → List α → List α → Prop
  | done (seen : List α) : DepthFirst next seen [] []
  /-- A node that was met before is skipped. -/
  | skip {seen pending order : List α} {x : α} (hx : x ∈ seen)
      (rest : DepthFirst next seen pending order) : DepthFirst next seen (x :: pending) order
  /-- A new node is followed by what is new below it. -/
  | enter {seen pending below after : List α} {x : α} (hx : x ∉ seen)
      (inside : DepthFirst next (seen ++ [x]) (next x) below)
      (rest : DepthFirst next (seen ++ x :: below) pending after) :
      DepthFirst next seen (x :: pending) (x :: below ++ after)

namespace DepthFirst

variable {next : α → List α} {seen pending order : List α}

/-- **The order is determined** by the graph, the nodes met before and the nodes to
visit. -/
theorem unique {order' : List α} (h : DepthFirst next seen pending order)
    (h' : DepthFirst next seen pending order') : order = order' := by
  induction h generalizing order' with
  | done seen => cases h'; rfl
  | skip hx _ ih =>
    cases h' with
    | skip _ rest' => exact ih rest'
    | enter hx' _ _ => exact absurd hx hx'
  | enter hx _ _ ihInside ihRest =>
    cases h' with
    | skip hx' _ => exact absurd hx' hx
    | enter _ inside' rest' =>
      obtain rfl := ihInside inside'
      obtain rfl := ihRest rest'
      rfl

theorem not_mem_seen (h : DepthFirst next seen pending order) : ∀ x ∈ order, x ∉ seen := by
  induction h with
  | done seen => simp
  | skip _ _ ih => exact ih
  | enter hx _ _ ihInside ihRest =>
    rw [cons_append, forall_mem_cons, forall_mem_append]
    exact ⟨hx, fun y hy hseen => ihInside y hy (mem_append_left _ hseen),
      fun y hy hseen => ihRest y hy (mem_append_left _ hseen)⟩

theorem nodup (h : DepthFirst next seen pending order) : order.Nodup := by
  induction h with
  | done seen => exact nodup_nil
  | skip _ _ ih => exact ih
  | @enter seen _ below after x hx inside rest ihInside ihRest =>
    have hbelow : x ∉ below := fun hmem => inside.not_mem_seen x hmem (by simp)
    have hafter : ∀ y ∈ after, y ∉ x :: below := fun y hy hmem =>
      rest.not_mem_seen y hy (mem_append_right _ hmem)
    refine nodup_append'.mpr ⟨nodup_cons.mpr ⟨hbelow, ihInside⟩, ihRest, ?_⟩
    intro y hy hy'
    exact hafter y hy' hy

theorem mem_of_mem_pending (h : DepthFirst next seen pending order) :
    ∀ x ∈ pending, x ∈ seen ∨ x ∈ order := by
  induction h with
  | done seen => simp
  | skip hx _ ih => exact forall_mem_cons.mpr ⟨.inl hx, ih⟩
  | enter _ _ _ _ ihRest =>
    refine forall_mem_cons.mpr ⟨.inr (by simp), fun y hy => ?_⟩
    have hmet := ihRest y hy
    simp only [mem_append] at hmet ⊢
    tauto

theorem mem_of_mem_next (h : DepthFirst next seen pending order) :
    ∀ x ∈ order, ∀ y ∈ next x, y ∈ seen ∨ y ∈ order := by
  induction h with
  | done seen => simp
  | skip _ _ ih => exact ih
  | @enter seen _ below after x _ inside rest ihInside ihRest =>
    -- What the visit below `x` meets first counts as met before for all that follows.
    have hwiden : ∀ y, y ∈ seen ++ [x] ∨ y ∈ below ∨ y ∈ seen ++ x :: below ∨ y ∈ after →
        y ∈ seen ∨ y ∈ x :: below ++ after := by
      intro y hy
      simp only [mem_append, mem_cons, not_mem_nil, or_false] at hy ⊢
      tauto
    rw [cons_append, forall_mem_cons, forall_mem_append, ← cons_append]
    exact ⟨fun z hz => hwiden z ((inside.mem_of_mem_pending z hz).imp_right .inl),
      fun y hy z hz => hwiden z ((ihInside y hy z hz).imp_right .inl),
      fun y hy z hz => hwiden z (.inr (.inr (ihRest y hy z hz)))⟩

theorem reachable (h : DepthFirst next seen pending order) :
    ∀ x ∈ order, ∃ y ∈ pending, ReflTransGen (fun p q => q ∈ next p) y x := by
  induction h with
  | done seen => simp
  | skip _ _ ih =>
    intro x hx
    obtain ⟨y, hy, hreach⟩ := ih x hx
    exact ⟨y, mem_cons_of_mem _ hy, hreach⟩
  | @enter _ _ _ _ x _ _ _ ihInside ihRest =>
    rw [cons_append, forall_mem_cons, forall_mem_append]
    refine ⟨⟨x, mem_cons_self, .refl⟩, fun y hy => ?_, fun y hy => ?_⟩
    · obtain ⟨z, hz, hreach⟩ := ihInside y hy
      exact ⟨x, mem_cons_self, .head hz hreach⟩
    · obtain ⟨z, hz, hreach⟩ := ihRest y hy
      exact ⟨z, mem_cons_of_mem _ hz, hreach⟩

/-- **A visit of the successors of a node lists exactly what is reachable from it.** -/
theorem mem_iff_transGen {root : α} (h : DepthFirst next [] (next root) order) (x : α) :
    x ∈ order ↔ TransGen (fun p q => q ∈ next p) root x := by
  constructor
  · intro hx
    obtain ⟨y, hy, hreach⟩ := h.reachable x hx
    exact .head' hy hreach
  · intro hreach
    -- The list holds the successors of the root and is closed under successors.
    induction hreach with
    | single hx => simpa using h.mem_of_mem_pending _ hx
    | tail _ hstep ih => simpa using h.mem_of_mem_next _ ih _ hstep

end DepthFirst

/-! ## Visits that lead back to nothing on the way -/

/-- A depth-first visit below the nodes of `way`, the last of which leads to `pending`, that
meets none of them again. -/
inductive ClearVisit (next : α → List α) : List α → List α → List α → List α → Prop
  | done (way seen : List α) : ClearVisit next way seen [] []
  | skip {way seen pending order : List α} {x : α} (hway : x ∉ way) (hx : x ∈ seen)
      (rest : ClearVisit next way seen pending order) :
      ClearVisit next way seen (x :: pending) order
  | enter {way seen pending below after : List α} {x : α} (hway : x ∉ way) (hx : x ∉ seen)
      (inside : ClearVisit next (way ++ [x]) (seen ++ [x]) (next x) below)
      (rest : ClearVisit next way (seen ++ x :: below) pending after) :
      ClearVisit next way seen (x :: pending) (x :: below ++ after)

namespace ClearVisit

variable {next : α → List α} {way seen pending order : List α}

theorem depthFirst (h : ClearVisit next way seen pending order) :
    DepthFirst next seen pending order := by
  induction h with
  | done way seen => exact .done seen
  | skip _ hx _ ih => exact .skip hx ih
  | enter _ hx _ _ ihInside ihRest => exact .enter hx ihInside ihRest

theorem not_mem_way (h : ClearVisit next way seen pending order) : ∀ x ∈ order, x ∉ way := by
  induction h with
  | done way seen => simp
  | skip _ _ _ ih => exact ih
  | enter hway _ _ _ ihInside ihRest =>
    rw [cons_append, forall_mem_cons, forall_mem_append]
    exact ⟨hway, fun y hy hmem => ihInside y hy (mem_append_left _ hmem), ihRest⟩

/-- Nodes that are done with: what they lead to is among them, and none leads to itself. -/
structure Finished (next : α → List α) (nodes : Set α) : Prop where
  closed : ∀ x ∈ nodes, ∀ y ∈ next x, y ∈ nodes
  acyclic : ∀ x ∈ nodes, ¬TransGen (fun p q => q ∈ next p) x x

namespace Finished

variable {nodes : Set α}

theorem mem_of_transGen (h : Finished next nodes) {x y : α} (hx : x ∈ nodes)
    (hxy : TransGen (fun p q => q ∈ next p) x y) : y ∈ nodes := by
  induction hxy with
  | single hstep => exact h.closed _ hx _ hstep
  | tail _ hstep ih => exact h.closed _ ih _ hstep

theorem insert (h : Finished next nodes) {x : α} (hx : ∀ y ∈ next x, y ∈ nodes) :
    Finished next (Insert.insert x nodes) := by
  refine ⟨?_, ?_⟩
  · rintro y (rfl | hy) z hz
    · exact Set.mem_insert_of_mem _ (hx z hz)
    · exact Set.mem_insert_of_mem _ (h.closed y hy z hz)
  · rintro y (rfl | hy) hcycle
    · -- The way back to the node goes through nodes that are done with, so it is one itself.
      obtain ⟨z, hz, hback⟩ := TransGen.head'_iff.mp hcycle
      rcases reflTransGen_iff_eq_or_transGen.mp hback with rfl | hback
      · exact h.acyclic _ (hx _ hz) hcycle
      · exact h.acyclic _ (h.mem_of_transGen (hx z hz) hback) hcycle
    · exact h.acyclic y hy hcycle

end Finished

/-- After a visit everything to visit is done with, if everything met before was, except for
what is on the way. -/
theorem exists_finished (h : ClearVisit next way seen pending order) {nodes : Set α}
    (hnodes : Finished next nodes) (hseen : ∀ x ∈ seen, x ∈ nodes ∨ x ∈ way) :
    ∃ nodes', Finished next nodes' ∧ nodes ⊆ nodes' ∧ (∀ x ∈ pending, x ∈ nodes') ∧
      ∀ x ∈ seen ++ order, x ∈ nodes' ∨ x ∈ way := by
  induction h generalizing nodes with
  | done way seen => exact ⟨nodes, hnodes, subset_rfl, by simp, by simpa using hseen⟩
  | @skip way seen pending order x hway hx _ ih =>
    obtain ⟨nodes', hfinished, hsub, hpending, hmet⟩ := ih hnodes hseen
    have hxnodes : x ∈ nodes' := (hmet x (mem_append_left _ hx)).resolve_right hway
    exact ⟨nodes', hfinished, hsub, forall_mem_cons.mpr ⟨hxnodes, hpending⟩, hmet⟩
  | @enter way seen pending below after x hway hx _ _ ihInside ihRest =>
    obtain ⟨inner, hinner, hsub, hnext, hmet⟩ := ihInside hnodes (forall_mem_append.mpr
      ⟨fun y hy => (hseen y hy).imp_right (mem_append_left _),
        fun y hy => .inr (mem_append_right _ hy)⟩)
    have hdone := hinner.insert hnext
    have hbelow : ∀ y ∈ below, y ∈ Insert.insert x inner ∨ y ∈ way := fun y hy => by
      have hmem := hmet y (mem_append_right _ hy)
      simp only [mem_append, mem_singleton, Set.mem_insert_iff] at hmem ⊢
      tauto
    obtain ⟨nodes', hfinished, hsub', hpending, hmet'⟩ := ihRest hdone (forall_mem_append.mpr
      ⟨fun y hy => (hseen y hy).imp_left fun hmem => .inr (hsub hmem),
        forall_mem_cons.mpr ⟨.inl (.inl rfl), hbelow⟩⟩)
    refine ⟨nodes', hfinished, fun y hy => hsub' (.inr (hsub hy)), ?_, ?_⟩
    · exact forall_mem_cons.mpr ⟨hsub' (.inl rfl), hpending⟩
    · simpa using hmet'

/-- **No cycle can be reached from a node whose visit is clear.** -/
theorem acyclic {root x : α} (h : ClearVisit next [root] [] (next root) order)
    (hx : ReflTransGen (fun p q => q ∈ next p) root x) :
    ¬TransGen (fun p q => q ∈ next p) x x := by
  have hempty : Finished next (∅ : Set α) := ⟨by simp, by simp⟩
  obtain ⟨nodes, hfinished, -, hpending, -⟩ := h.exists_finished hempty (by simp)
  have hroot := hfinished.insert hpending
  refine hroot.acyclic x ?_
  rcases reflTransGen_iff_eq_or_transGen.mp hx with rfl | hreach
  · exact Set.mem_insert x nodes
  · exact hroot.mem_of_transGen (Set.mem_insert root nodes) hreach

end ClearVisit

end FlowLock
