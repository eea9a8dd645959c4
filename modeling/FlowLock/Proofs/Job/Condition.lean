import FlowLock.SafeOutput.Jobs
import Mathlib.Data.List.TakeWhile
import Mathlib.Data.List.Infix

/-!
# References in the conditions of jobs

A condition reads the results of other jobs as `needs.<name>`.  The names are found by
looking at every place of the text, so that the spelling around a reference does not
matter; a character that can stand neither in the mark nor in a name divides a text into
parts that can be searched one by one.
-/

namespace FlowLock

open List

namespace Job

def isNameChar (c : Char) : Bool := c.isAlphanum || c == '_' || c == '-'

/-- What a reference to another job starts with. -/
def referenceMark : List Char := ['n', 'e', 'e', 'd', 's', '.']

def referenceAt (cs : List Char) : List String :=
  if referenceMark.isPrefixOf cs then
    [String.ofList ((cs.drop referenceMark.length).takeWhile isNameChar)]
  else []

def referencesIn : List Char → List String
  | [] => []
  | c :: cs => referenceAt (c :: cs) ++ referencesIn cs

def references (job : Job) : List String := referencesIn job.condition.toList

/-- A character that stands neither in the mark of a reference nor in a name. -/
def Divides (c : Char) : Prop := c ∉ referenceMark ∧ isNameChar c = false

instance (c : Char) : Decidable (Divides c) := inferInstanceAs (Decidable (_ ∧ _))

variable {c : Char}

theorem referenceAt_append (hc : Divides c) (xs ys : List Char) :
    referenceAt (xs ++ c :: ys) = referenceAt xs := by
  have hstart : referenceMark <+: xs ++ c :: ys ↔ referenceMark <+: xs := by
    constructor
    · intro h
      rcases prefix_or_prefix_of_prefix h (prefix_append xs (c :: ys)) with h | h
      · exact h
      · -- A longer mark would go on with the dividing character.
        obtain ⟨rest, hrest⟩ := h
        cases rest with
        | nil => simp [← hrest]
        | cons d rest =>
          rw [← hrest] at h
          obtain ⟨tail, htail⟩ := h
          rw [append_assoc, append_cancel_left_eq] at htail
          obtain ⟨rfl, -⟩ : d = c ∧ _ := by simpa using htail
          exact absurd (by simp [← hrest]) hc.1
    · exact fun h => h.trans (prefix_append ..)
  unfold referenceAt
  by_cases h : referenceMark <+: xs
  · have hlength : referenceMark.length ≤ xs.length := h.length_le
    rw [if_pos (by simpa using hstart.mpr h), if_pos (by simpa using h),
      drop_append_of_le_length hlength]
    congr 2
    rw [takeWhile_append]
    split
    · next hall =>
      have hwhole := (List.takeWhile_prefix isNameChar).eq_of_length hall
      simp [hc.2, hwhole]
    · rfl
  · rw [if_neg (by simpa using fun h' => h (hstart.mp h')), if_neg (by simpa using h)]

theorem referencesIn_append (hc : Divides c) (xs ys : List Char) :
    referencesIn (xs ++ c :: ys) = referencesIn xs ++ referencesIn (c :: ys) := by
  induction xs with
  | nil => rfl
  | cons x xs ih =>
    have hat := referenceAt_append hc (x :: xs) ys
    rw [cons_append] at hat
    rw [cons_append, referencesIn, referencesIn, hat, ih, append_assoc]

theorem referencesIn_cons (hc : Divides c) (cs : List Char) :
    referencesIn (c :: cs) = referencesIn cs := by
  have hat : referenceAt (c :: cs) = [] := referenceAt_append hc [] cs
  rw [referencesIn, hat, nil_append]

theorem referencesIn_of_not_mem {cs : List Char} (h : '.' ∉ cs) : referencesIn cs = [] := by
  induction cs with
  | nil => rfl
  | cons c cs ih =>
    have hat : ¬referenceMark <+: c :: cs := fun hstart =>
      h (hstart.subset (by simp [referenceMark]))
    rw [referencesIn, referenceAt, if_neg (by simpa using hat), nil_append]
    exact ih fun hmem => h (mem_cons_of_mem _ hmem)

end Job

namespace SafeOutputs

open SafeOutput

private theorem dot_not_mem_handlerKey (kind : Kind) : '.' ∉ kind.handlerKey.toList := by
  have hkey : '.' ∉ kind.key.toList := by cases kind <;> simp [Kind.key, Kind.spec]
  simp only [Kind.handlerKey, Text.replaceChar, String.toList_ofList, mem_map, not_exists, not_and]
  intro c hc heq
  split at heq
  · cases heq
  · exact hkey (heq ▸ hc)

theorem referencesIn_asksFor (kind : Kind) :
    Job.referencesIn (asksFor kind).toList = ["agent"] := by
  have hopening : "contains(needs.agent.outputs.output_types, '".toList =
      "contains(needs.agent.outputs.output_types, ".toList ++ ['\''] := by decide
  have hasks : asksFor kind =
      "contains(needs.agent.outputs.output_types, '" ++ kind.handlerKey ++ "')" := rfl
  have hkey : '.' ∉ '\'' :: (kind.handlerKey.toList ++ "')".toList) := by
    simp [dot_not_mem_handlerKey]
  rw [hasks, String.toList_append, String.toList_append, hopening, append_assoc, append_assoc,
    singleton_append, Job.referencesIn_append (by decide), Job.referencesIn_of_not_mem hkey]
  decide

theorem referencesIn_reportCondition (kind : Kind) :
    Job.referencesIn ("(!cancelled()) && " ++ asksFor kind).toList = ["agent"] := by
  have hopening : "(!cancelled()) && ".toList = "(!cancelled()) &&".toList ++ [' '] := by
    decide
  have hnone : Job.referencesIn "(!cancelled()) &&".toList = [] := by decide
  rw [String.toList_append, hopening, append_assoc, singleton_append,
    Job.referencesIn_append (by decide), hnone, Job.referencesIn_cons (by decide),
    referencesIn_asksFor, nil_append]

theorem referencesIn_asksForAny (kinds : List Kind) :
    ∀ name ∈ Job.referencesIn (" || ".intercalate (kinds.map asksFor)).toList, name = "agent" := by
  induction kinds with
  | nil => simp [Job.referencesIn]
  | cons kind kinds ih =>
    cases kinds with
    | nil => simp [referencesIn_asksFor]
    | cons next kinds =>
      have hspace : Job.Divides ' ' := by decide
      have hbar : Job.Divides '|' := by decide
      have hor : " || ".toList = [' ', '|', '|', ' '] := by simp
      rw [map_cons, map_cons, String.intercalate_cons_cons, ← map_cons,
        String.toList_append, String.toList_append, hor, append_assoc, cons_append,
        Job.referencesIn_append hspace, referencesIn_asksFor]
      simp only [cons_append, nil_append, Job.referencesIn_cons hspace,
        Job.referencesIn_cons hbar, forall_mem_cons]
      exact ⟨trivial, ih⟩

/-- **The processing job refers to the agent only.** -/
theorem referencesIn_jobCondition (s : SafeOutputs) :
    ∀ name ∈ Job.referencesIn s.jobCondition.toList, name = "agent" := by
  have hopening : "(!cancelled()) && needs.agent.result != 'skipped' && (".toList =
      "(!cancelled()) && needs.agent.result != 'skipped' && ".toList ++ ['('] := by
    decide
  have hagent : Job.referencesIn
      "(!cancelled()) && needs.agent.result != 'skipped' && ".toList = ["agent"] := by
    decide
  have hclose : ")".toList = [')'] := by simp
  have hkinds : (s.handled.map fun o => asksFor o.kind) =
      (s.handled.map (·.kind)).map asksFor := by simp
  unfold jobCondition
  rw [String.toList_append, String.toList_append, hopening, hclose, append_assoc,
    append_assoc, singleton_append, Job.referencesIn_append (by decide), hagent,
    Job.referencesIn_cons (by decide), Job.referencesIn_append (by decide),
    Job.referencesIn_cons (by decide), hkinds]
  intro name hname
  simp only [mem_append, mem_singleton, Job.referencesIn, not_mem_nil, or_false] at hname
  rcases hname with rfl | hname
  · rfl
  · exact referencesIn_asksForAny _ name hname

end SafeOutputs

end FlowLock
