import FlowLock.Proofs.Json
import FlowLock.Proofs.Setting.Reorder

/-!
# Canonical encodings forget the order of keys

In the canonical style the members of an object are sorted by their keys.  Mappings with
text keys that are not repeated therefore have the same text in any order, if the values at
the same keys have.
-/

namespace FlowLock.Json

open Table Option List Value

variable {depth : Nat}

/-! ## Sorting members -/

theorem insertSorted?_str {α : Type} (e : String × α) (done : Table α) :
    insertSorted? (.str e.1) e.2 (done.map fun d => (str d.1, d.2)) =
      some ((Text.insertOn (·.1) e done).map fun d => (str d.1, d.2)) := by
  induction done with
  | nil => rfl
  | cons d done ih =>
    rw [map_cons, insertSorted?, Text.insertOn]
    by_cases h : e.1 < d.1
    · simp [keyBefore?, h]
    · simp [keyBefore?, h, ih]

theorem sortEntries?_str {α : Type} (t : Table α) :
    sortEntries? (t.map fun e => (str e.1, e.2)) =
      some ((sorted t).map fun e => (str e.1, e.2)) := by
  suffices h : ∀ done : Table α, (t.map fun e => (str e.1, e.2)).foldl
          (fun acc e => acc.bind fun done => insertSorted? e.1 e.2 done)
          (some (done.map fun e => (str e.1, e.2))) =
        some ((t.foldl (fun done e => Text.insertOn (·.1) e done) done).map
          fun e => (str e.1, e.2)) from h []
  induction t with
  | nil => exact fun _ => rfl
  | cons e t ih =>
    intro done
    rw [map_cons, foldl_cons, bind_some, insertSorted?_str, ih, foldl_cons]

/-- The members of an object with the given texts of its values. -/
def membersOf (t : Table String) : List String :=
  (sorted t).map fun e => quote e.1 ++ canonical.colon ++ e.2

theorem members?_str (t : Table String) :
    members? canonical (t.map fun e => (str e.1, e.2)) = some (membersOf t) := by
  have hall : ∀ t : Table String, (t.map fun e => (str e.1, e.2)).mapM
          (fun e => (keyText? e.1).bind fun key => some (quote key ++ canonical.colon ++ e.2)) =
        some (t.map fun e => quote e.1 ++ canonical.colon ++ e.2) := by
    intro t
    induction t with
    | nil => rfl
    | cons e t ih =>
      rw [map_cons, mapM_cons, ih]
      rfl
  change (sortEntries? _).bind _ = _
  rw [sortEntries?_str]
  exact hall (sorted t)

/-! ## Encoding values -/

def TextsOf (depth : Nat) (t : Table Value) (u : Table String) : Prop :=
  Related (fun v text => encodeAt? canonical depth v = some text) t u

theorem encodeEntries?_str {t : Table Value} {es : List (Value × String)} :
    encodeEntries? canonical depth (t.map fun e => (.str e.1, e.2)) = some es ↔
      ∃ u, TextsOf depth t u ∧ es = u.map fun e => (str e.1, e.2) := by
  induction t generalizing es with
  | nil =>
    constructor
    · rintro ⟨⟩
      exact ⟨[], .nil, rfl⟩
    · rintro ⟨u, ⟨⟩, rfl⟩
      rfl
  | cons e t ih =>
    rw [map_cons, encodeEntries?, encodeEntry?]
    constructor
    · intro h
      obtain ⟨d, hd, h⟩ := bind_eq_some_iff.mp h
      obtain ⟨text, htext, rfl⟩ := map_eq_some_iff.mp hd
      obtain ⟨rest, hrest, h⟩ := bind_eq_some_iff.mp h
      obtain ⟨u, hu, rfl⟩ := ih.mp hrest
      cases h
      exact ⟨(e.1, text) :: u, .cons ⟨rfl, htext⟩ hu, rfl⟩
    · rintro ⟨_, hu, rfl⟩
      cases hu with
      | @cons _ d _ u hd hu =>
        obtain ⟨hkey, hd⟩ := hd
        rw [hd, ih.mpr ⟨u, hu, rfl⟩, hkey]
        rfl

theorem encodeAt?_obj {t : Table Value} {text : String} :
    encodeAt? canonical depth (.obj t) = some text ↔ ∃ u, TextsOf (depth + 1) t u ∧
        text = bracket canonical depth "\x7b" "\x7d" (membersOf u) := by
  rw [obj, encodeAt?]
  constructor
  · intro h
    obtain ⟨es, hes, h⟩ := bind_eq_some_iff.mp h
    obtain ⟨u, hu, rfl⟩ := encodeEntries?_str.mp hes
    rw [members?_str] at h
    cases h
    exact ⟨u, hu, rfl⟩
  · rintro ⟨u, hu, rfl⟩
    refine bind_eq_some_iff.mpr ⟨_, encodeEntries?_str.mpr ⟨u, hu, rfl⟩, ?_⟩
    rw [members?_str]
    rfl

/-! ## Another order -/

def WrittenAs (depth : Nat) (v v' : Value) : Prop :=
  ∀ text, encodeAt? canonical depth v = some text → encodeAt? canonical depth v' = some text

/-- **A mapping in another order has the same text**, if related values have. -/
theorem writtenAs_of_reordered {R : String → Value → Value → Prop}
    (hR : ∀ key v v', R key v v' → WrittenAs (depth + 1) v v') {v v' : Value}
    (h : v.Reordered R v') : WrittenAs depth v v' := by
  intro text htext
  cases h with
  | same => exact htext
  | obj h =>
    obtain ⟨u, hu, rfl⟩ := encodeAt?_obj.mp htext
    obtain ⟨u', hu', hshuffled⟩ := hu.exists_shuffled h fun key v v' text hv => hR key v v' hv text
    refine encodeAt?_obj.mpr ⟨u', hu', ?_⟩
    rw [membersOf, membersOf, hshuffled.sorted_eq]

end FlowLock.Json
