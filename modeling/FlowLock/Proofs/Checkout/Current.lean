import FlowLock.Proofs.Checkout.Merge
import FlowLock.Proofs.Outcome

/-!
# The current checkout

Requests are refused when they mark two places as the current one.  The check leaves out the
blanks around repositories and paths, but a plan tells targets apart by their exact spelling: of
accepted requests all current targets stand at one place up to such blanks, and there is one of
them exactly when the requests spell that place in one way.
-/

namespace FlowLock.Checkout

open Outcome List Text

/-- Where a request goes, without the blanks around the repository and the path. -/
def Request.place (r : Request) : String × String := (trim r.repository, trim r.path)

/-- Where a target is, without the blanks around the repository and the path. -/
def Target.place (t : Target) : String × String := (trim t.repository, trim t.path)

/-! ## Parsed requests -/

theorem normalPath_normalPath (path : String) : normalPath (normalPath path) = normalPath path := by
  unfold normalPath
  by_cases h : path = "." <;> simp [h]

theorem Request.gives_parse (item : Entries) :
    Gives (fun r : Request => normalPath r.path = r.path) (Request.parse item) := by
  unfold Request.parse
  iterate 9 refine .bind_any _ fun _ => ?_
  exact .ok (normalPath_normalPath _)

theorem gives_parseItem (index : Nat) (item : Value) :
    Gives (fun r : Request => normalPath r.path = r.path) (parseItem index item) := by
  intro r hr
  unfold parseItem at hr
  split at hr
  · next es =>
    split at hr
    · cases hr
    · exact Request.gives_parse es r hr
  · cases hr

theorem gives_parseItems (index : Nat) (items : List Value) :
    Gives (fun rs => ∀ r ∈ rs, normalPath r.path = r.path) (parseItems index items) := by
  induction items generalizing index with
  | nil => exact .ok (by simp)
  | cons item items ih =>
    unfold parseItems
    refine (gives_parseItem index item).bind fun r hr => (ih (index + 1)).bind fun rs hrs => ?_
    exact .ok (forall_mem_cons.mpr ⟨hr, hrs⟩)

theorem gives_parseShape (setting : Value) :
    Gives (fun rs => ∀ r ∈ rs, normalPath r.path = r.path) (parseShape setting) := by
  unfold parseShape
  split
  · exact .ok (by simp)
  · next es => exact (Request.gives_parse es).bind fun r hr => .ok (by simpa using hr)
  · next items => exact gives_parseItems 0 items
  · rintro rs ⟨⟩

theorem currentPlaces_eq (requests : List Request) :
    currentPlaces requests = ((requests.filter (·.current)).map Request.place).eraseDups :=
  foldl_eraseDups [] _

theorem of_parse {setting : Value} {requests : List Request} (h : parse setting = .ok requests) :
    (∀ r ∈ requests, normalPath r.path = r.path) ∧
      ∀ r ∈ requests, ∀ r' ∈ requests, r.current → r'.current → r.place = r'.place := by
  obtain ⟨rs, hshape, h⟩ := bind_eq_ok.mp h
  dsimp only at h
  split at h
  · cases h
  · next hplaces =>
    cases h
    refine ⟨gives_parseShape setting requests hshape, fun r hr r' hr' hcurrent hcurrent' => ?_⟩
    rw [Nat.not_lt, currentPlaces_eq, length_le_one_iff (nodup_eraseDups _)] at hplaces
    simp only [mem_eraseDups] at hplaces
    have hmem : ∀ q ∈ requests, q.current →
        q.place ∈ (requests.filter (·.current)).map Request.place := fun q hq hqcurrent =>
      mem_map_of_mem (mem_filter.mpr ⟨hq, hqcurrent⟩)
    exact hplaces _ (hmem r hr hcurrent) _ (hmem r' hr' hcurrent')

/-! ## Current targets -/

namespace Plan

theorem exists_current_iff {requests : List Request} {key : String × String} :
    (∃ t ∈ (ofRequests requests).targets, t.current ∧ t.key = key) ↔
      ∃ r ∈ requests, r.current ∧ r.key = key := by
  constructor
  · rintro ⟨t, ht, hcurrent, rfl⟩
    rw [(merges_of_mem ht).current, any_eq_true] at hcurrent
    obtain ⟨r, hr, hcurrent⟩ := hcurrent
    obtain ⟨hr, hkey⟩ := mem_filter.mp hr
    exact ⟨r, hr, hcurrent, by simpa using hkey⟩
  · rintro ⟨r, hr, hcurrent, rfl⟩
    have hkey : r.key ∈ (ofRequests requests).keys := by
      rw [keys_ofRequests, mem_eraseDups]
      exact mem_map_of_mem hr
    obtain ⟨t, ht, hkey⟩ := mem_map.mp hkey
    refine ⟨t, ht, ?_, hkey⟩
    rw [(merges_of_mem ht).current, any_eq_true]
    exact ⟨r, mem_filter.mpr ⟨hr, by simp [hkey]⟩, hcurrent⟩

theorem length_current_le_one_iff (requests : List Request) :
    ((ofRequests requests).targets.filter (·.current)).length ≤ 1 ↔
      ∀ r ∈ requests, ∀ r' ∈ requests, r.current → r'.current → r.key = r'.key := by
  have hnodup : (((ofRequests requests).targets.filter (·.current)).map Target.key).Nodup :=
    (filter_sublist.map Target.key).nodup (indexed_ofRequests requests).nodup
  have hmem : ∀ key, key ∈ ((ofRequests requests).targets.filter (·.current)).map Target.key ↔
      ∃ r ∈ requests, r.current ∧ r.key = key := by
    intro key
    rw [← exists_current_iff]
    simp [and_assoc]
  rw [← length_map Target.key, length_le_one_iff hnodup]
  simp only [hmem]
  constructor
  · intro h r hr r' hr' hcurrent hcurrent'
    exact h _ ⟨r, hr, hcurrent, rfl⟩ _ ⟨r', hr', hcurrent', rfl⟩
  · rintro h _ ⟨r, hr, hcurrent, rfl⟩ _ ⟨r', hr', hcurrent', rfl⟩
    exact h r hr r' hr' hcurrent hcurrent'

/-- **The current targets of accepted requests** are all at one place up to blanks around
repository and path.  There is one at most exactly when the current requests spell their place in
one way, so always when none of them has such blanks. -/
theorem current_targets_share_place {setting : Value} {requests : List Request}
    (h : parse setting = .ok requests) :
    (∀ t ∈ (ofRequests requests).targets, ∀ t' ∈ (ofRequests requests).targets,
        t.current → t'.current → t.place = t'.place) ∧
      (((ofRequests requests).targets.filter (·.current)).length ≤ 1 ↔
        ∀ r ∈ requests, ∀ r' ∈ requests, r.current → r'.current →
          r.repository = r'.repository ∧ r.path = r'.path) ∧
      ((∀ r ∈ requests, r.current → r.place = (r.repository, r.path)) →
        ((ofRequests requests).targets.filter (·.current)).length ≤ 1) := by
  obtain ⟨hnormal, hplace⟩ := of_parse h
  have hkey : ∀ r ∈ requests, r.key = (r.repository, r.path) := fun r hr => by
    rw [Request.key, hnormal r hr]
  refine ⟨?_, ?_, fun htrimmed => (length_current_le_one_iff requests).mpr ?_⟩
  · intro t ht t' ht' hcurrent hcurrent'
    obtain ⟨r, hr, hrcurrent, hrt⟩ := exists_current_iff.mp ⟨t, ht, hcurrent, rfl⟩
    obtain ⟨r', hr', hrcurrent', hrt'⟩ := exists_current_iff.mp ⟨t', ht', hcurrent', rfl⟩
    rw [hkey r hr] at hrt
    rw [hkey r' hr'] at hrt'
    have heq := hplace r hr r' hr' hrcurrent hrcurrent'
    simp only [Request.place, Target.place, Target.key, Prod.mk.injEq] at hrt hrt' heq ⊢
    rwa [← hrt.1, ← hrt.2, ← hrt'.1, ← hrt'.2]
  · rw [length_current_le_one_iff]
    refine forall₂_congr fun r hr => forall₂_congr fun r' hr' => ?_
    rw [hkey r hr, hkey r' hr', Prod.mk.injEq]
  · intro r hr r' hr' hcurrent hcurrent'
    have heq := hplace r hr r' hr' hcurrent hcurrent'
    rwa [htrimmed r hr hcurrent, htrimmed r' hr' hcurrent', ← hkey r hr, ← hkey r' hr'] at heq

def currentAt (paths : List String) : Value :=
  .list (paths.map fun path => .obj [("path", .str path), ("current", .bool true)])

theorem currentAt_root :
    ∃ requests, parse (currentAt ["", "."]) = .ok requests ∧ requests.length = 2 ∧
      ((ofRequests requests).targets.filter (·.current)).length ≤ 1 := by
  have hparse : parse (currentAt ["", "."]) = .ok [{ current := true }, { current := true }] := rfl
  exact ⟨_, hparse, rfl, (current_targets_share_place hparse).2.2 (by decide)⟩

/-- A blank after the path is accepted, and gives two current targets. -/
theorem currentAt_blank :
    ∃ requests, parse (currentAt ["a", "a "]) = .ok requests ∧
      ((ofRequests requests).targets.filter (·.current)).length = 2 :=
  ⟨_, rfl, by decide⟩

end Plan

end FlowLock.Checkout
