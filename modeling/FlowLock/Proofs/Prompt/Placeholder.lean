import FlowLock.Proofs.Table
import FlowLock.Proofs.Text.Blank
import FlowLock.Prompt
import Mathlib.Data.List.Find
import Mathlib.Data.List.Infix

/-!
# Placeholders and what they stand for

A text falls into plain characters and references to expressions.  Every reference is replaced by
a placeholder, which is named after its expression, and an expression is kept by the name of its
placeholder.  Names of different expressions can fall together, and then only the first of the
expressions is kept.  Putting the expressions back gives the text that was there, with its
expressions trimmed, when they do not.
-/

namespace FlowLock.Prompt

open List Step Option Text Table Template

/-! ## Parts of a text -/

/-- A part of a text: a character, or a reference with what stands between its marks. -/
inductive Part where
  | plain (c : Char)
  | reference (inner : List Char)
deriving DecidableEq

namespace Part

/-- The part as it stands in the text. -/
def source : Part → List Char
  | plain c => [c]
  | reference inner => opening.toList ++ (inner ++ closing.toList)

def expression? : Part → Option String
  | plain _ => none
  | reference inner => some (trim (String.ofList inner))

/-- The part with something in the place of its expression. -/
def shown (f : String → String) : Part → List Char
  | plain c => [c]
  | reference inner => (f (trim (String.ofList inner))).toList

end Part

/-- What stands between the marks of a reference at the start, and what stands after it. -/
def referenceAt? (cs : List Char) : Option (List Char × List Char) :=
  if opening.toList.isPrefixOf cs then
    breakOn closing.toList (cs.drop opening.length)
  else none

/-- The parts of a list of characters.  `skip` counts the characters still covered by the
reference last met. -/
def parts : Nat → List Char → List Part
  | _, [] => []
  | skip + 1, _ :: cs => parts skip cs
  | 0, c :: cs =>
    match referenceAt? (c :: cs) with
    | none => .plain c :: parts 0 cs
    | some (inner, after) => .reference inner :: parts (cs.length - after.length) cs

def expressions (text : String) : List String := (parts 0 text.toList).filterMap Part.expression?

def tidied (text : String) : String :=
  String.ofList ((parts 0 text.toList).flatMap (Part.shown expression))

variable {cs after : List Char} {piece before : List Char}

theorem breakOn_eq_some (h : breakOn piece cs = some (before, after)) :
    cs = before ++ (piece ++ after) := by
  induction cs generalizing before with
  | nil =>
    rw [breakOn] at h
    split at h
    · next hpiece =>
      cases h
      rw [isEmpty_iff.mp hpiece]
      rfl
    · cases h
  | cons c cs ih =>
    rw [breakOn] at h
    split at h
    · next hpiece =>
      cases h
      exact (prefix_iff_eq_append.mp (List.isPrefixOf_iff_prefix.mp hpiece)).symm
    · obtain ⟨⟨first, rest⟩, hbreak, hparts⟩ := map_eq_some_iff.mp h
      cases hparts
      rw [ih hbreak, cons_append]

theorem referenceAt?_eq_some {inner : List Char} (h : referenceAt? cs = some (inner, after)) :
    cs = (Part.reference inner).source ++ after := by
  unfold referenceAt? at h
  split at h
  · next hopening =>
    obtain ⟨rest, rfl⟩ := isPrefixOf_iff_prefix.mp hopening
    have hrest : (opening.toList ++ rest).drop opening.length = rest :=
      drop_left' String.length_toList
    rw [hrest] at h
    rw [breakOn_eq_some h, Part.source, append_assoc, append_assoc]
  · cases h

/-- **The parts make the text.** -/
theorem flatMap_source_parts (skip : Nat) (cs : List Char) :
    (parts skip cs).flatMap Part.source = cs.drop skip := by
  fun_induction parts skip cs with
  | case1 => rw [drop_nil]; rfl
  | case2 skip c cs ih => exact ih
  | case3 c cs _ ih => rw [flatMap_cons, ih]; rfl
  | case4 c cs inner after href ih =>
    have hcs := referenceAt?_eq_some href
    have hafter : after <:+ cs := ⟨_, (cons.inj hcs).2.symm⟩
    rw [flatMap_cons, ih, ← suffix_iff_eq_drop.mp hafter, ← hcs, drop_zero]

/-- **What is extracted from a text**: its parts with placeholders, and the first expression of
each placeholder. -/
theorem extractList_eq (skip : Nat) (cs : List Char) (found : Table String) :
    extractList skip cs found =
      ((parts skip cs).flatMap (Part.shown fun e => "__" ++ placeholder e ++ "__"),
       addNew expression found
        (((parts skip cs).filterMap Part.expression?).map fun e => (placeholder e, e))) := by
  have hat : ∀ cs, expressionAt? cs =
      (referenceAt? cs).map fun found => (trim (String.ofList found.1), found.2) := by
    intro cs
    unfold expressionAt? referenceAt?
    split <;> rfl
  fun_induction parts skip cs generalizing found with
  | case1 => rfl
  | case2 skip c cs ih => exact ih found
  | case3 c cs href ih =>
    rw [extractList, hat, href, map_none, flatMap_cons, Part.shown, filterMap_cons_none rfl]
    dsimp only
    rw [ih, singleton_append]
  | case4 c cs inner after href ih =>
    rw [extractList, hat, href, map_some, flatMap_cons, Part.shown,
      filterMap_cons, Part.expression?]
    dsimp only
    rw [ih, map_cons, addNew, addNew, foldl_cons]

/-! ## Putting expressions back -/

def mark (name : String) : String := "__" ++ name ++ "__"

/-- A list of characters with the placeholders in it replaced: at each place by the first entry
whose placeholder stands there.  `skip` counts the characters still covered by the placeholder
last replaced. -/
def restoreList (found : Table String) : Nat → List Char → List Char
  | _, [] => []
  | skip + 1, _ :: cs => restoreList found skip cs
  | 0, c :: cs =>
    match found.find? fun e => (mark e.1).toList.isPrefixOf (c :: cs) with
    | none => c :: restoreList found 0 cs
    | some e => e.2.toList ++ restoreList found ((mark e.1).length - 1) cs

/-- What is extracted from a text, with the expressions put back. -/
def restored (text : String) : String :=
  String.ofList (restoreList (extract text).2 0 (extract text).1.toList)

theorem restoreList_append (found : Table String) (covered cs : List Char) :
    restoreList found covered.length (covered ++ cs) = restoreList found 0 cs := by
  induction covered with
  | nil => rfl
  | cons c covered ih => rw [length_cons, cons_append, restoreList, ih]

variable {found : Table String} {ps : List Part}

/-- Where the placeholders that stand at a place have one name, its entry is put back. -/
theorem restoreList_mark {name value : String} (hvalue : found.get? name = some value)
    (honly : ∀ e ∈ found, (mark e.1).toList <+: (mark name).toList ++ cs → e.1 = name) :
    restoreList found 0 ((mark name).toList ++ cs) = value.toList ++ restoreList found 0 cs := by
  obtain ⟨e, hkey, rfl⟩ := map_eq_some_iff.mp hvalue
  have hname : e.1 = name := by simpa using find?_some hkey
  have hfind : found.find? (fun e => (mark e.1).toList.isPrefixOf ((mark name).toList ++ cs)) =
      some e := by
    rw [← hkey]
    refine find?_congr fun d hd => ?_
    rw [Bool.eq_iff_iff, isPrefixOf_iff_prefix, beq_iff_eq]
    exact ⟨honly d hd, fun heq => heq ▸ prefix_append _ _⟩
  obtain ⟨covered, hmark⟩ : ∃ covered, (mark name).toList = '_' :: covered :=
    ⟨'_' :: (name ++ "__").toList, by simp [mark]⟩
  have hlength : (mark e.1).length - 1 = covered.length := by
    rw [hname, ← String.length_toList, hmark, length_cons, Nat.add_sub_cancel]
  rw [hmark, cons_append] at hfind ⊢
  rw [restoreList, hfind]
  dsimp only
  rw [hlength, restoreList_append]

/-- The placeholder of an expression stands at a part only where it was put. -/
def OnlyPut (text : String) : Prop :=
  ∀ rest ∈ (parts 0 text.toList).tails, ∀ e ∈ (extract text).2,
    (mark e.1).toList <+: rest.flatMap (Part.shown (mark ∘ placeholder)) →
      (rest.head?.bind Part.expression?).map placeholder = some e.1

instance (text : String) : Decidable (OnlyPut text) := inferInstanceAs (Decidable (∀ rest ∈ _, _))

def NamesApart (text : String) : Prop :=
  ∀ e ∈ expressions text, ∀ e' ∈ expressions text, placeholder e = placeholder e' → e = e'

instance (text : String) : Decidable (NamesApart text) := inferInstanceAs (Decidable (∀ e ∈ _, _))

theorem extract_eq (text : String) : extract text =
    (String.ofList ((parts 0 text.toList).flatMap (Part.shown (mark ∘ placeholder))),
      addNew expression [] ((expressions text).map fun e => (placeholder e, e))) := by
  rw [extract, extractList_eq]
  rfl

/-- What is kept by the name of a placeholder: the first expression with the name. -/
theorem get?_extract (text name : String) : (extract text).2.get? name =
    ((expressions text).find? (placeholder · == name)).map expression := by
  rw [extract_eq, get?_addNew]
  conv => lhs; rhs; rw [get?, find?_map, Option.map_map, Option.map_map]
  rfl

def Part.put (found : Table String) : Part → List Char :=
  Part.shown fun e => (found.get? (placeholder e)).getD ""

theorem restoreList_shown (hput : ∀ rest, rest <:+ ps → ∀ e ∈ found,
      (mark e.1).toList <+: rest.flatMap (Part.shown (mark ∘ placeholder)) →
        (rest.head?.bind Part.expression?).map placeholder = some e.1)
    (hfound : ∀ e ∈ ps.filterMap Part.expression?, (found.get? (placeholder e)).isSome) :
    restoreList found 0 (ps.flatMap (Part.shown (mark ∘ placeholder))) =
      ps.flatMap (Part.put found) := by
  induction ps with
  | nil => rfl
  | cons p ps ih =>
    have hrest := ih fun rest hrest => hput rest (hrest.trans (suffix_cons p ps))
    have hhere := hput (p :: ps) suffix_rfl
    -- No placeholder stands at a plain character, and at a reference only its own.
    cases p with
    | plain c =>
      have hnone : found.find? (fun e => (mark e.1).toList.isPrefixOf
          (c :: ps.flatMap (Part.shown (mark ∘ placeholder)))) = none := by
        rw [find?_eq_none]
        intro e he hstarts
        have hnever := hhere e he (List.isPrefixOf_iff_prefix.mp hstarts)
        rw [head?_cons, bind_some, Part.expression?, map_none] at hnever
        cases hnever
      rw [flatMap_cons, flatMap_cons, Part.shown, singleton_append, restoreList, hnone]
      exact congrArg (c :: ·) (hrest hfound)
    | reference inner =>
      obtain ⟨hkept, hothers⟩ := forall_mem_cons.mp hfound
      obtain ⟨value, hvalue⟩ := isSome_iff_exists.mp hkept
      have honly : ∀ e ∈ found, (mark e.1).toList <+:
          (mark (placeholder (trim (String.ofList inner)))).toList ++
            ps.flatMap (Part.shown (mark ∘ placeholder)) →
          e.1 = placeholder (trim (String.ofList inner)) :=
        fun e he hstarts => (some.inj (hhere e he hstarts)).symm
      have hput : Part.put found (.reference inner) = value.toList := by
        rw [Part.put, Part.shown, hvalue, getD_some]
      rw [flatMap_cons, flatMap_cons, hput, ← hrest hothers]
      exact restoreList_mark hvalue honly

/-! ## When the text comes back -/

variable {text : String}

theorem restored_eq (h : OnlyPut text) : restored text =
    String.ofList ((parts 0 text.toList).flatMap (Part.put (extract text).2)) := by
  have hfound : ∀ e ∈ expressions text, ((extract text).2.get? (placeholder e)).isSome := by
    intro e he
    rw [get?_extract, isSome_map, find?_isSome]
    exact ⟨e, he, by simp⟩
  rw [restored, ← restoreList_shown (fun rest hrest => h rest ((mem_tails _ _).mpr hrest)) hfound,
    extract_eq, String.toList_ofList]

theorem not_infix_of_breakOn (hpiece : piece ≠ []) (h : breakOn piece cs = some (before, after)) :
    ¬piece <:+: before := by
  induction cs generalizing before with
  | nil =>
    rw [breakOn, if_neg (by simpa using hpiece)] at h
    cases h
  | cons c cs ih =>
    have hcs := breakOn_eq_some h
    rw [breakOn] at h
    split at h
    · cases h
      exact fun hwithin => hpiece (infix_nil.mp hwithin)
    · next hstarts =>
      obtain ⟨⟨first, rest⟩, hbreak, hparts⟩ := map_eq_some_iff.mp h
      cases hparts
      rw [infix_cons_iff]
      rintro (hfirst | hwithin)
      · refine hstarts (List.isPrefixOf_iff_prefix.mpr ?_)
        rw [hcs]
        exact hfirst.trans (prefix_append _ _)
      · exact ih hbreak hwithin

theorem breakOn_append (h : ¬closing.toList <:+: cs) (rest : List Char) :
    breakOn closing.toList (cs ++ ' ' :: (closing.toList ++ rest)) =
      some (cs ++ [' '], rest) := by
  induction cs with
  | nil => simp [breakOn, closing]
  | cons c cs ih =>
    have hcs : ¬closing.toList <:+: cs := fun hwithin =>
      h (hwithin.trans (suffix_cons c cs).isInfix)
    have hstarts : ¬closing.toList <+:
        c :: (cs ++ ' ' :: (closing.toList ++ rest)) := by
      cases cs with
      | nil => simp [closing]
      | cons d cs =>
        intro hstarts
        refine h (IsPrefix.isInfix ?_)
        simpa [closing] using hstarts
    rw [cons_append, breakOn, if_neg (mt isPrefixOf_iff_prefix.mp hstarts), ih hcs]
    rfl

variable {e : String}

theorem not_infix_of_mem_expressions (h : e ∈ expressions text) :
    ¬closing.toList <:+: e.toList := by
  have hinner : ∀ skip cs, ∀ p ∈ parts skip cs, ∀ inner, p = .reference inner →
      ¬closing.toList <:+: inner := by
    intro skip cs
    fun_induction parts skip cs with
    | case1 => exact forall_mem_nil _
    | case2 skip c cs ih => exact ih
    | case3 c cs _ ih => exact forall_mem_cons.mpr ⟨nofun, ih⟩
    | case4 c cs inner after href ih =>
      refine forall_mem_cons.mpr ⟨?_, ih⟩
      rintro _ ⟨⟩
      unfold referenceAt? at href
      split at href
      · exact not_infix_of_breakOn (by decide) href
      · cases href
  obtain ⟨p, hp, he⟩ := mem_filterMap.mp h
  cases p with
  | plain c => cases he
  | reference inner =>
    obtain rfl := some.inj he
    have hclosed := hinner 0 _ _ hp inner rfl
    refine fun hwithin => hclosed (hwithin.trans ?_)
    simpa using trim_isInfix (String.ofList inner)

theorem expression_append_inj {e' : String} {ds : List Char}
    (he : ¬closing.toList <:+: e.toList) (he' : ¬closing.toList <:+: e'.toList)
    (h : (expression e).toList ++ cs = (expression e').toList ++ ds) :
    e = e' ∧ cs = ds := by
  have hspelled : ∀ (e : String) (cs : List Char), (expression e).toList ++ cs =
      "$\x7b\x7b ".toList ++ (e.toList ++ ' ' :: (closing.toList ++ cs)) := by
    intro e cs
    simp [expression, closing]
  rw [hspelled, hspelled] at h
  have hbreak := congrArg (breakOn closing.toList) (append_cancel_left h)
  rw [breakOn_append he, breakOn_append he'] at hbreak
  simpa [String.toList_inj] using hbreak

/-- An expression of a text is kept, or another one with a placeholder of the same name. -/
theorem exists_get?_extract (h : e ∈ expressions text) :
    ∃ e' ∈ expressions text, placeholder e' = placeholder e ∧
      (extract text).2.get? (placeholder e) = some (expression e') := by
  have hsome : ((expressions text).find? (placeholder · == placeholder e)).isSome :=
    find?_isSome.mpr ⟨e, h, beq_self_eq_true _⟩
  obtain ⟨e', hfind⟩ := isSome_iff_exists.mp hsome
  refine ⟨e', mem_of_find?_eq_some hfind, by simpa using find?_some hfind, ?_⟩
  rw [get?_extract, hfind, map_some]

/-- A text that comes back has each of its expressions kept. -/
theorem get?_of_flatMap_put_eq
    (hkept : ∀ e ∈ ps.filterMap Part.expression?, ¬closing.toList <:+: e.toList ∧
      ∃ e' : String, ¬closing.toList <:+: e'.toList ∧
        found.get? (placeholder e) = some (expression e'))
    (h : ps.flatMap (Part.put found) = ps.flatMap (Part.shown expression)) :
    ∀ e ∈ ps.filterMap Part.expression?, found.get? (placeholder e) = some (expression e) := by
  induction ps with
  | nil => exact forall_mem_nil _
  | cons p ps ih =>
    rw [flatMap_cons, flatMap_cons] at h
    cases p with
    | plain c => exact ih hkept (append_cancel_left h)
    | reference inner =>
      obtain ⟨⟨hfree, e', hfree', hget⟩, hothers⟩ := forall_mem_cons.mp hkept
      rw [Part.put, Part.shown, Part.shown, hget, getD_some] at h
      obtain ⟨rfl, hrest⟩ := expression_append_inj hfree' hfree h
      exact forall_mem_cons.mpr ⟨hget, ih hothers hrest⟩

/-- **When putting the expressions back gives the text.**  A text is made of its parts, and where
placeholders stand only where they were put, the text comes back with its expressions trimmed
just when the names of the placeholders tell the expressions apart. -/
theorem restored_eq_tidied_iff (text : String) :
    (parts 0 text.toList).flatMap Part.source = text.toList ∧
      (OnlyPut text → (restored text = tidied text ↔ NamesApart text)) := by
  refine ⟨flatMap_source_parts 0 text.toList, fun h => ?_⟩
  have hfree : ∀ e ∈ expressions text, ¬closing.toList <:+: e.toList :=
    fun _ => not_infix_of_mem_expressions
  rw [restored_eq h, tidied, ← String.toList_inj, String.toList_ofList, String.toList_ofList]
  constructor
  · intro hsame e he e' he' hname
    have hown := get?_of_flatMap_put_eq (fun e he => ?_) hsame
    · have hkept := some.inj ((hown e he).symm.trans (hname ▸ hown e' he'))
      exact (expression_append_inj (hfree e he) (hfree e' he')
        (congrArg (fun s => s.toList ++ []) hkept)).1
    · obtain ⟨e', he', -, hget⟩ := exists_get?_extract he
      exact ⟨hfree e he, e', hfree e' he', hget⟩
  · intro hapart
    refine flatMap_congr fun p hp => ?_
    cases p with
    | plain c => rfl
    | reference inner =>
      have he : trim (String.ofList inner) ∈ expressions text :=
        mem_filterMap.mpr ⟨_, hp, rfl⟩
      obtain ⟨e', he', hname, hget⟩ := exists_get?_extract he
      rw [Part.put, Part.shown, Part.shown, hget, hapart e' he' _ he hname, getD_some]

def sampleText : String :=
  "By $\x7b\x7bgithub.actor\x7d\x7d, _" ++ expression "a.b" ++ "_ " ++
    expression "github.actor"

theorem restored_eq_tidied_sample :
    OnlyPut sampleText ∧ NamesApart sampleText ∧ restored sampleText = tidied sampleText := by
  have hput : OnlyPut sampleText := by decide +kernel
  have hapart : NamesApart sampleText := by decide +kernel
  exact ⟨hput, hapart, ((restored_eq_tidied_iff sampleText).2 hput).mpr hapart⟩

def twoPaths : String := expression "a.b" ++ " " ++ expression "a-b"

/-- The text has no placeholder in it and no expression but paths, and yet the second path is
rendered as the first. -/
theorem restored_falls_together :
    includes twoPaths "__GH_AW_" = false ∧ (expressions twoPaths).all isPath = true ∧
    tidied twoPaths = twoPaths ∧
    restored twoPaths = expression "a.b" ++ " " ++ expression "a.b" := by
  decide +kernel

end FlowLock.Prompt
