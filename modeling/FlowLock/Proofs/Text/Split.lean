import FlowLock.Text.Search
import Mathlib.Data.List.Infix

/-!
# Pieces of a text

A text that is cut at a separator falls into pieces without it, and the separator between
the pieces gives the text back.  So the pieces are told by the text, and the text by them.
-/

namespace FlowLock.Text

open List

theorem splitList_eq (sep : Char) (cs : List Char) : splitList sep cs = cs.splitOn sep := by
  induction cs with
  | nil => rfl
  | cons c cs ih =>
    rw [splitList, ih, splitOn_cons_eq_if_modifyHead]
    by_cases hc : c = sep
    · simp [hc]
    · rw [if_neg hc, if_neg (by simpa using hc)]
      obtain ⟨piece, pieces, hpieces⟩ := exists_cons_of_ne_nil (splitOn_ne_nil sep cs)
      simp [hpieces]

theorem splitList_ne_nil (sep : Char) (cs : List Char) : splitList sep cs ≠ [] :=
  splitList_eq sep cs ▸ splitOn_ne_nil sep cs

theorem splitList_append_cons (sep : Char) (cs ds : List Char) :
    splitList sep (cs ++ sep :: ds) = splitList sep cs ++ splitList sep ds := by
  rw [splitList_eq, splitList_eq, splitList_eq, splitOn_append_cons_self]

theorem lines_append (s t : String) : lines (s ++ "\n" ++ t) = lines s ++ lines t := by
  rw [lines, splitOn, String.toList_append, String.toList_append, append_assoc]
  exact (congrArg _ (splitList_append_cons '\n' s.toList t.toList)).trans map_append

variable {sep : Char}

theorem splitList_of_not_mem {cs : List Char} (h : sep ∉ cs) : splitList sep cs = [cs] := by
  rw [splitList_eq, splitOn_eq_singleton h]

theorem flatMap_splitList (sep : Char) (cs : List Char) :
    (splitList sep cs).flatMap (· ++ [sep]) = cs ++ [sep] := by
  induction cs with
  | nil => rfl
  | cons c cs ih =>
    rw [splitList]
    split
    · next hc => rw [flatMap_cons, ih, hc]; rfl
    · obtain ⟨piece, pieces, hpieces⟩ := exists_cons_of_ne_nil (splitList_ne_nil sep cs)
      rw [hpieces] at ih ⊢
      exact congrArg (c :: ·) ih

theorem not_mem_of_mem_splitList {cs piece : List Char} (h : piece ∈ splitList sep cs) :
    sep ∉ piece := by
  induction cs generalizing piece with
  | nil =>
    rw [mem_singleton.mp h]
    exact not_mem_nil
  | cons c cs ih =>
    rw [splitList] at h
    split at h
    · rcases mem_cons.mp h with rfl | h
      · exact not_mem_nil
      · exact ih h
    · next hc =>
      obtain ⟨first, rest, hpieces⟩ := exists_cons_of_ne_nil (splitList_ne_nil sep cs)
      rw [hpieces] at h ih
      rcases mem_cons.mp h with rfl | h
      · exact not_mem_cons_of_ne_of_not_mem (Ne.symm hc) (ih mem_cons_self)
      · exact ih (mem_cons_of_mem _ h)

/-- **Given pieces are those of a text** when none of them has the separator in it and the
text is what they make with the separator between them. -/
theorem splitOn_eq_iff {s : String} {pieces : List String} (hne : pieces ≠ []) :
    splitOn s sep = pieces ↔
      s = (String.singleton sep).intercalate pieces ∧ ∀ piece ∈ pieces, sep ∉ piece.toList := by
  have hjoin : ∀ ls : List String, ((String.singleton sep).intercalate ls).toList =
      [sep].intercalate (ls.map String.toList) := by
    intro ls
    rw [String.toList_intercalate, String.toList_singleton]
  constructor
  · rintro rfl
    refine ⟨String.toList_inj.mp ?_, ?_⟩
    · rw [hjoin, splitOn, map_map, splitList_eq]
      simp [Function.comp_def, intercalate_splitOn]
    · intro piece hpiece
      obtain ⟨cs, hcs, rfl⟩ := mem_map.mp hpiece
      simpa using not_mem_of_mem_splitList hcs
  · rintro ⟨rfl, hfree⟩
    rw [splitOn, splitList_eq, hjoin, splitOn_intercalate]
    · simp [Function.comp_def]
    · rintro cs hcs
      obtain ⟨piece, hpiece, rfl⟩ := mem_map.mp hcs
      exact hfree piece hpiece
    · simpa using hne

end FlowLock.Text
