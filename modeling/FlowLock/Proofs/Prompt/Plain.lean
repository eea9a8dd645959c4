import FlowLock.Proofs.Prompt.Placeholder
import FlowLock.Proofs.Text.Digit
import FlowLock.Proofs.Text.Distinct

/-!
# No reference is left in a text

With placeholders in the place of its references, a text has no reference any more: neither the
plain characters between the placeholders nor their seams make one.
-/

namespace FlowLock.Prompt

open List String Table Template

variable {cs : List Char} {text : String} {c : Char} {piece : List Char} {ps : List Part}

/-- A reference stands in a list of characters: an opening mark with a closing mark after it. -/
def HasReference (cs : List Char) : Prop := ∃ inner, (Part.reference inner).source <:+: cs

def isMarkChar (c : Char) : Bool := "$\x7b\x7d".toList.contains c

theorem isMarkChar_nameChar (c : Char) : isMarkChar (nameChar c) = false := by
  unfold nameChar
  split
  · next h =>
    have htable : ∀ d ∈ "$\x7b\x7d".toList,
        (('A' ≤ d && d ≤ 'Z') || Text.isAsciiDigit d) = false := by decide
    refine Bool.not_eq_true _ ▸ fun hmark => ?_
    rw [htable c (contains_iff_mem.mp hmark)] at h
    cases h
  · decide

theorem exists_digit_of_mem_hexOfText {s : String} (h : c ∈ (Sha256.hexOfText s).toList) :
    ∃ d < 16, c = Nat.digitChar d := by
  rw [Sha256.hexOfText, Sha256.hex, toList_join, flatMap_map] at h
  obtain ⟨word, -, hc⟩ := mem_flatMap.mp h
  obtain ⟨ds, hds, hlt, -⟩ := Text.exists_hexPadded (by decide : 0 < 8) word.toNat_lt
  rw [hds] at hc
  obtain ⟨d, hd, rfl⟩ := mem_map.mp hc
  exact ⟨d, hlt d hd, rfl⟩

theorem isMarkChar_of_mem_placeholder (e : String) :
    ∀ c ∈ (placeholder e).toList, isMarkChar c = false := by
  rw [placeholder]
  split <;> rw [toList_append, forall_mem_append] <;> refine ⟨by decide, ?_⟩ <;>
    intro c hc <;> rw [toList_ofList] at hc
  · obtain ⟨d, -, hd⟩ := mem_map.mp hc
    exact hd ▸ isMarkChar_nameChar d
  · have hupper := mem_of_mem_take hc
    rw [Text.upper, toList_ofList] at hupper
    obtain ⟨d, hd, hcd⟩ := mem_flatMap.mp hupper
    obtain ⟨k, hk, rfl⟩ := exists_digit_of_mem_hexOfText hd
    have htable : ∀ k < 16, ∀ c ∈ Text.upperChar (Nat.digitChar k), isMarkChar c = false := by
      decide
    exact htable k hk c hcd

theorem infix_of_infix_append {word : List Char} (hword : c ∉ word)
    (h : c :: piece <:+: word ++ cs) : c :: piece <:+: cs := by
  induction word with
  | nil => exact h
  | cons w word ih =>
    obtain ⟨hne, hrest⟩ := not_or.mp (mt mem_cons.mpr hword)
    rcases infix_cons_iff.mp h with hstart | hlater
    · exact absurd (cons_prefix_cons.mp hstart).1 hne
    · exact ih hrest hlater

theorem exists_toList_mark (name : String) : ∃ covered, (mark name).toList = '_' :: covered :=
  ⟨'_' :: (name ++ "__").toList, by simp [mark]⟩

/-- Parts with placeholders in the place of their references. -/
def written (ps : List Part) : List Char := ps.flatMap (Part.shown (mark ∘ placeholder))

theorem isMarkChar_of_mem_mark (e : String) :
    ∀ c ∈ (mark (placeholder e)).toList, isMarkChar c = false := by
  intro c hc
  simp only [mark, toList_append, mem_append] at hc
  have hline : ∀ c ∈ "__".toList, isMarkChar c = false := by decide
  rcases hc with (hc | hc) | hc
  · exact hline c hc
  · exact isMarkChar_of_mem_placeholder e c hc
  · exact hline c hc

theorem written_plain (c : Char) (ps : List Part) : written (.plain c :: ps) = c :: written ps := rfl

theorem written_reference (inner : List Char) (ps : List Part) : written (.reference inner :: ps) =
    (mark (placeholder (Text.trim (ofList inner)))).toList ++ written ps := rfl

theorem exists_plain_of_written (hc : isMarkChar c = true) (h : written ps = c :: cs) :
    ∃ rest, ps = .plain c :: rest ∧ written rest = cs := by
  cases ps with
  | nil => cases h
  | cons p rest =>
    cases p with
    | plain d =>
      obtain ⟨rfl, hrest⟩ := cons.inj h
      exact ⟨rest, rfl, hrest⟩
    | reference inner =>
      obtain ⟨covered, hmark⟩ := exists_toList_mark (placeholder (Text.trim (ofList inner)))
      rw [written_reference, hmark] at h
      rw [← (cons.inj h).1] at hc
      exact absurd hc (by decide)

theorem toList_opening : opening.toList = ['$', '\x7b', '\x7b'] := by decide

theorem toList_closing : closing.toList = ['\x7d', '\x7d'] := by decide

/-- A closing mark among placeholders was there before. -/
theorem closing_infix_of_written (h : closing.toList <:+: written ps) :
    closing.toList <:+: ps.flatMap Part.source := by
  rw [toList_closing] at h ⊢
  induction ps with
  | nil => exact absurd (infix_nil.mp h) (cons_ne_nil _ _)
  | cons p ps ih =>
    cases p with
    | plain c =>
      rw [written_plain] at h
      refine infix_cons_iff.mpr ((infix_cons_iff.mp h).imp ?_ ih)
      rintro ⟨tail, htail⟩
      obtain ⟨rfl, hnext⟩ := cons.inj htail
      obtain ⟨rest, rfl, -⟩ := exists_plain_of_written (by decide) hnext.symm
      exact ⟨_, rfl⟩
    | reference inner =>
      rw [written_reference] at h
      refine (ih (infix_of_infix_append (fun hmem => ?_) h)).trans (suffix_append _ _).isInfix
      exact absurd (isMarkChar_of_mem_mark _ _ hmem) (by decide)

theorem breakOn_ne_none (h : piece <:+: cs) : breakOn piece cs ≠ none := by
  induction cs with
  | nil =>
    rw [infix_nil.mp h]
    exact Option.some_ne_none _
  | cons c cs ih =>
    rw [breakOn]
    split
    · exact Option.some_ne_none _
    · next hstarts =>
      rcases infix_cons_iff.mp h with hstart | hlater
      · exact absurd (List.isPrefixOf_iff_prefix.mpr hstart) hstarts
      · exact mt Option.map_eq_none_iff.mp (ih hlater)

/-- **No reference is left**, neither between the placeholders nor across them. -/
theorem not_hasReference_written (skip : Nat) (cs : List Char) :
    ¬HasReference (written (parts skip cs)) := by
  fun_induction parts skip cs with
  | case1 => rintro ⟨inner, h⟩; cases infix_nil.mp h
  | case2 skip c cs ih => exact ih
  | case3 c cs href ih =>
    rw [written_plain]
    rintro ⟨inner, h⟩
    rcases infix_cons_iff.mp h with ⟨tail, htail⟩ | hlater
    · rw [Part.source, toList_opening] at htail
      -- The opening mark stands in plain characters, and the closing mark after it was there.
      obtain ⟨rfl, hnext⟩ := cons.inj htail
      obtain ⟨later, hparts, hlater⟩ := exists_plain_of_written (by decide) hnext.symm
      obtain ⟨rest, rfl, hrest⟩ := exists_plain_of_written (by decide) hlater
      have hclosing : closing.toList <:+: rest.flatMap Part.source :=
        closing_infix_of_written ⟨inner, tail, hrest.symm⟩
      have hcs := flatMap_source_parts 0 cs
      rw [hparts, drop_zero] at hcs
      rw [← hcs] at href
      exact breakOn_ne_none hclosing href
    · exact ih ⟨inner, hlater⟩
  | case4 c cs inner after href ih =>
    rw [written_reference]
    rintro ⟨other, h⟩
    rw [Part.source, toList_opening] at h
    refine ih ⟨other, ?_⟩
    rw [Part.source, toList_opening]
    refine infix_of_infix_append (fun hmem => ?_) h
    exact absurd (isMarkChar_of_mem_mark _ _ hmem) (by decide)

theorem parts_of_not_hasReference (h : ¬HasReference cs) : parts 0 cs = cs.map .plain := by
  induction cs with
  | nil => rfl
  | cons c cs ih =>
    have hrest : ¬HasReference cs := fun ⟨inner, hinner⟩ =>
      h ⟨inner, hinner.trans (suffix_cons c cs).isInfix⟩
    rw [parts]
    cases href : referenceAt? (c :: cs) with
    | none => rw [ih hrest, map_cons]
    | some found =>
      exact absurd ⟨found.1, [], found.2, (referenceAt?_eq_some href).symm⟩ h

theorem extract_of_not_hasReference (h : ¬HasReference text.toList) : extract text = (text, []) := by
  rw [extract_eq, expressions, parts_of_not_hasReference h, flatMap_map]
  simp [Part.shown, Part.expression?, filterMap_map, Function.comp_def, addNew]

end FlowLock.Prompt
