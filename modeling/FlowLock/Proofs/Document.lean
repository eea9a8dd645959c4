import FlowLock.Document
import FlowLock.Proofs.Outcome
import FlowLock.Proofs.Text.Split

/-!
# Documents fall apart at their fences

The lines of a document are those of its text with unified line ends.  The first line that is not
blank opens the block of settings if it is a fence, and the next fence closes it.  The parts of the
document are the lines before, between and after the fences, and they make the text again.
-/

namespace FlowLock.Document

open List Text Option

/-- The lines of a document: those of its text with line feeds alone and no byte-order mark. -/
def linesOf (content : String) : List String := lines (normalized content)

theorem unlines_linesOf (content : String) :
    unlines (linesOf content) = normalized content := by
  have hne : linesOf content ≠ [] := by
    simpa [linesOf, Text.lines, Text.splitOn] using Text.splitList_ne_nil '\n' _
  exact ((splitOn_eq_iff hne).mp rfl).1.symm

/-- The number of the line that opens the block: the first one that is not blank, if it is a
fence. -/
def opening? (lines : List String) : Option Nat :=
  (lines.findIdx? fun line => !isAllBlank line).filter fun s => isFence (lines.getD s "")

/-- The number of the first fence after a line. -/
def closing? (lines : List String) (s : Nat) : Option Nat :=
  ((lines.drop (s + 1)).findIdx? isFence).map (s + 1 + ·)

theorem findIdx?_not {α : Type} (p : α → Bool) (xs : List α) :
    xs.findIdx? (fun x => !p x) =
      match xs.dropWhile p with
      | [] => none
      | _ :: _ => some (xs.takeWhile p).length := by
  induction xs with
  | nil => rfl
  | cons x xs ih =>
    rw [findIdx?_cons, ih]
    cases h : p x <;> simp only [dropWhile, takeWhile, h]
    · rfl
    · cases xs.dropWhile p <;> rfl

/-- The document whose fences are the lines `s` and `e`, with its settings. -/
def between (lines : List String) (s e : Nat) (settings : Entries) : Document where
  settings := settings
  body := unlines (lines.drop (e + 1))
  block := (lines.take e).drop (s + 1)
  blockLine := s + 2
  bodyLine := e + 2

theorem split_eq (name : Option String) (required : Bool) (content : String) :
    split name required content =
      match opening? (linesOf content) with
      | none =>
        if required then .error (.frontMatter name .missing)
        else .ok ⟨[], normalized content, [], 0, 1⟩
      | some s =>
        match closing? (linesOf content) s with
        | none => .error (.frontMatter name (.unclosed (s + 1)))
        | some e =>
          (settingsOf name (((linesOf content).take e).drop (s + 1)) (s + 2)).map
            (between (linesOf content) s e) := by
  rw [split, ← linesOf, opening?, findIdx?_not]
  generalize linesOf content = lines
  have hsplit := @List.takeWhile_append_dropWhile _ isAllBlank lines
  dsimp only
  cases hrest : lines.dropWhile isAllBlank with
  | nil => rfl
  | cons first rest =>
    rw [hrest] at hsplit
    generalize lines.takeWhile isAllBlank = blanks at hsplit ⊢
    subst hsplit
    have hfirst : (blanks ++ first :: rest).getD blanks.length "" = first := by simp
    have hafter : (blanks ++ first :: rest).drop (blanks.length + 1) = rest := by simp
    dsimp only
    rw [filter_some, hfirst]
    cases hfence : isFence first with
    | false => rfl
    | true =>
      have hsplit := @List.takeWhile_append_dropWhile _ (fun line => !isFence line) rest
      have hnext := findIdx?_not (fun line => !isFence line) rest
      simp only [Bool.not_not] at hnext
      simp only [closing?, hafter, hnext, Bool.not_true, Bool.false_eq_true, if_false, if_true]
      cases hbody : rest.dropWhile (fun line => !isFence line) with
      | nil => rfl
      | cons last body =>
        rw [hbody] at hsplit
        generalize rest.takeWhile (fun line => !isFence line) = block at hsplit ⊢
        subst hsplit
        have hblock : ((blanks ++ first :: (block ++ last :: body)).take
            (blanks.length + 1 + block.length)).drop (blanks.length + 1) = block := by
          rw [drop_take, hafter, Nat.add_sub_cancel_left, take_left]
        have hrest : (blanks ++ first :: (block ++ last :: body)).drop
            (blanks.length + 1 + block.length + 1) = body := by
          rw [Nat.add_assoc _ _ 1, ← drop_drop, hafter]
          simp
        simp only [map_some, hblock]
        cases settingsOf name block (blanks.length + 2) with
        | error e => rfl
        | ok settings =>
          have hline : blanks.length + 1 + block.length + 2 = blanks.length + block.length + 3 := by
            omega
          simp only [Except.map, between, hblock, hrest, hline]
          rfl

variable {lines : List String} {s e : Nat}

theorem closing?_eq_some (h : closing? lines s = some e) :
    s < e ∧ e < lines.length ∧ ∀ line ∈ (lines.take e).drop (s + 1), isFence line = false := by
  obtain ⟨i, hi, rfl⟩ := map_eq_some_iff.mp h
  obtain ⟨hlt, -, hbefore⟩ := findIdx?_eq_some_iff_getElem.mp hi
  rw [length_drop] at hlt
  refine ⟨by omega, by omega, fun line hline => ?_⟩
  rw [drop_take, Nat.add_sub_cancel_left] at hline
  obtain ⟨j, hj, rfl⟩ := mem_take_iff_getElem.mp hline
  exact Bool.not_eq_true _ ▸ hbefore j (by omega)

theorem unlines_append_unlines (xs : List String) {ys : List String} (hys : ys ≠ []) :
    unlines (xs ++ [unlines ys]) = unlines (xs ++ ys) := by
  have hcons : ∀ (x : String) {ls : List String}, ls ≠ [] →
      unlines (x :: ls) = x ++ "\n" ++ unlines ls := by
    intro x ls hls
    obtain ⟨l, rest, rfl⟩ := exists_cons_of_ne_nil hls
    exact String.intercalate_cons_cons
  induction xs with
  | nil => exact String.intercalate_singleton
  | cons x xs ih =>
    rw [cons_append, cons_append, hcons x (by simp), hcons x (by simp [hys]), ih]

theorem unlines_at_fences (h : closing? lines s = some e) :
    unlines (lines.take (s + 1) ++ (lines.take e).drop (s + 1) ++ lines.getD e "" ::
        if e + 1 = lines.length then [] else [unlines (lines.drop (e + 1))]) =
      unlines lines := by
  obtain ⟨hlt, hlength, -⟩ := closing?_eq_some h
  have htake : (lines.take e).take (s + 1) = lines.take (s + 1) := by
    rw [take_take, Nat.min_eq_left hlt]
  have hlast : lines.getD e "" :: lines.drop (e + 1) = lines.drop e := by
    rw [drop_eq_getElem_cons hlength, getD_eq_getElem?_getD,
      getElem?_eq_getElem hlength, getD_some]
  rw [← htake, take_append_drop]
  split
  · next hend =>
    rw [drop_eq_nil_of_le hend.ge] at hlast
    rw [hlast, take_append_drop]
  · next hmore =>
    have hne : lines.drop (e + 1) ≠ [] := by
      rw [Ne, drop_eq_nil_iff]
      omega
    rw [append_cons, unlines_append_unlines _ hne, ← append_cons, hlast,
      take_append_drop]

theorem kind?_of_settingsOf {name : Option String} {block : List String} {n : Nat} {fault : Error}
    (h : settingsOf name block n = .error fault) : fault.kind? ≠ some .frontMatterMissing := by
  rw [settingsOf] at h
  split at h
  · cases h
  · split at h
    · cases h
      nofun
    · cases h
      rw [loadFault]
      split <;> nofun
    · split at h <;> cases h
      nofun

variable {read : Outcome Entries}

theorem map_between_eq_ok {d : Document} : read.map (between lines s e) = .ok d ↔
    read = .ok d.settings ∧ d.block = (lines.take e).drop (s + 1) ∧ d.blockLine = s + 2 ∧
      d.body = unlines (lines.drop (e + 1)) ∧ d.bodyLine = e + 2 := by
  constructor
  · intro h
    cases read with
    | error fault => cases h
    | ok settings =>
      cases h
      exact ⟨rfl, rfl, rfl, rfl, rfl⟩
  · obtain ⟨settings, body, block, blockLine, bodyLine⟩ := d
    rintro ⟨rfl, rfl, rfl, rfl, rfl⟩
    rfl

theorem eq_error_of_map_between {fault : Error} (h : read.map (between lines s e) = .error fault) :
    read = .error fault := by
  cases read <;> cases h
  rfl

/-- **A document falls apart at its fences.**  It lacks its block just when the first line that is
not blank is no fence, or no fence comes after it; without need of a block, the first makes it all
body.  Else the block is what stands between the fences and the body what stands after them, and
with the lines before the block they make the text again. -/
theorem split_at_fences (name : Option String) (required : Bool) (content : String) :
    let lines := linesOf content
    ((∃ fault, split name required content = .error fault ∧
        fault.kind? = some .frontMatterMissing) ↔
      required = true ∧ opening? lines = none ∨
        ∃ s, opening? lines = some s ∧ closing? lines s = none) ∧
    (required = false → opening? lines = none → split name required content =
      .ok ⟨[], normalized content, [], 0, 1⟩) ∧
    ∀ s e, opening? lines = some s → closing? lines s = some e →
      (∀ d, split name required content = .ok d ↔
        settingsOf name d.block d.blockLine = .ok d.settings ∧
        d.block = (lines.take e).drop (s + 1) ∧ d.blockLine = s + 2 ∧
        d.body = unlines (lines.drop (e + 1)) ∧ d.bodyLine = e + 2) ∧
      (∀ line ∈ (lines.take e).drop (s + 1), isFence line = false) ∧
      unlines (lines.take (s + 1) ++ (lines.take e).drop (s + 1) ++ lines.getD e "" ::
        if e + 1 = lines.length then [] else [unlines (lines.drop (e + 1))]) =
        normalized content := by
  dsimp only
  rw [split_eq]
  have hmake := unlines_linesOf content
  generalize linesOf content = lines at hmake ⊢
  refine ⟨?_, ?_, ?_⟩
  · cases hopening : opening? lines with
    | none => cases required <;> simp [Error.kind?]
    | some s =>
      cases hclosing : closing? lines s with
      | none => simp [hclosing, Error.kind?]
      | some e =>
        have hfound : ∀ fault, (settingsOf name ((lines.take e).drop (s + 1))
            (s + 2)).map (between lines s e) = .error fault →
            fault.kind? ≠ some .frontMatterMissing :=
          fun fault hfault => kind?_of_settingsOf (eq_error_of_map_between hfault)
        simpa [hclosing] using hfound
  · rintro rfl hopening
    rw [hopening]
    rfl
  · intro s e hopening hclosing
    rw [hopening]
    dsimp only
    rw [hclosing]
    dsimp only
    refine ⟨fun d => ?_, (closing?_eq_some hclosing).2.2, ?_⟩
    · rw [map_between_eq_ok]
      refine and_congr_left fun ⟨hblock, hline, _⟩ => ?_
      rw [hblock, hline]
    · rw [unlines_at_fences hclosing, hmake]

end FlowLock.Document
