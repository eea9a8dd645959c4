import FlowLock.Proofs.Value.Place
import FlowLock.Step

/-!
# Steps that run scripts

A step that runs a handler script has its settings in a fixed order, its environment near the
end.  What stands around the environment does not depend on it.
-/

namespace FlowLock.Step

open Outcome Table Value

variable {ctx : Context} {s : Script} {step : Value} {key : String}

theorem get?_textEntry {other : String} (h : key ≠ other) (text : String) :
    get? (textEntry key text) other = none := by
  unfold textEntry
  split
  · rfl
  · rw [get?_cons, if_neg h]
    rfl

theorem get?_textEntry_self (key text : String) :
    get? (textEntry key text) key = if text.isEmpty then none else some (.str text) := by
  unfold textEntry
  split
  · rfl
  · rw [get?_cons, if_pos rfl]

def scriptHead (s : Script) (uses : String) : Table Value :=
  [("name", .str s.name)] ++ textEntry "id" s.id ++ textEntry "if" s.condition ++
  [("uses", .str uses)]

def scriptTail (s : Script) (program : Table Value) : Table Value :=
  if (textEntry "github-token" s.token ++ program).isEmpty then []
  else [("with", .obj (textEntry "github-token" s.token ++ program))]

/-- **A script's step around its environment**, which is left out when it is empty. -/
theorem exists_script (h : script ctx s = .ok step) :
    ∃ uses program, get? program "github-token" = none ∧
      ∀ environment : Table Value, script ctx { s with environment } =
        .ok (.obj (scriptHead s uses ++
          (if environment.isEmpty then [] else [("env", .obj environment.sorted)]) ++
          scriptTail s program)) := by
  unfold script at h ⊢
  dsimp only at h ⊢
  by_cases hcustom : (ScriptRegistry.actionPath ctx.scripts s.handler).isEmpty
  · rw [if_pos hcustom] at h
    obtain ⟨uses, huses, -⟩ := bind_eq_ok.mp h
    refine ⟨uses, [("script", .str (scriptText s.handler s.call))], rfl, fun environment => ?_⟩
    rw [if_pos hcustom, if_pos hcustom, huses]
    rfl
  · refine ⟨ScriptRegistry.actionPath ctx.scripts s.handler, [], rfl, fun environment => ?_⟩
    rw [if_neg hcustom, if_neg hcustom]
    rfl

theorem get?_scriptHead (h : key ∉ ["name", "id", "if", "uses"]) (s : Script) (uses : String) :
    get? (scriptHead s uses) key = none := by
  simp only [List.mem_cons, List.not_mem_nil, or_false, not_or] at h
  obtain ⟨hname, hid, hif, huses⟩ := h
  rw [scriptHead, get?_append, get?_append, get?_append, get?_cons,
    if_neg (Ne.symm hname), get?_textEntry (Ne.symm hid), get?_textEntry (Ne.symm hif),
    get?_cons, if_neg (Ne.symm huses)]
  rfl

theorem get?_scriptHead_id (h : s.id.isEmpty = false) (uses : String) :
    get? (scriptHead s uses) "id" = some (.str s.id) := by
  rw [scriptHead, get?_append, get?_append, get?_append, get?_textEntry_self, h]
  rfl

theorem get?_scriptTail (h : key ≠ "with") (s : Script) (program : Table Value) :
    get? (scriptTail s program) key = none := by
  unfold scriptTail
  split
  · rfl
  · rw [get?_cons, if_neg (Ne.symm h)]
    rfl

theorem id_script (h : script ctx s = .ok step) (hid : s.id.isEmpty = false) :
    step.at? [.key "id"] = some (.str s.id) := by
  obtain ⟨uses, program, -, hscript⟩ := exists_script h
  cases (hscript s.environment).symm.trans h
  rw [at?_obj_key, List.append_assoc, get?_append, get?_scriptHead_id hid]
  rfl

theorem env_script (h : script ctx s = .ok step) (key : String) :
    step.at? [.key "env", .key key] = s.environment.get? key := by
  obtain ⟨uses, program, -, hscript⟩ := exists_script h
  cases (hscript s.environment).symm.trans h
  rw [at?_obj, get?_append, get?_append, get?_scriptHead (by decide),
    get?_scriptTail (by decide), Option.none_or, Option.or_none]
  cases henvironment : s.environment with
  | nil => rfl
  | cons e environment =>
    exact (at?_obj_key _ key).trans (get?_sorted (e :: environment) key)

/-- A step that runs a script gets its token and nothing else under that name. -/
theorem token_script (h : script ctx s = .ok step) :
    step.at? [.key "with", .key "github-token"] =
      if s.token.isEmpty then none else some (.str s.token) := by
  obtain ⟨uses, program, hprogram, hscript⟩ := exists_script h
  cases (hscript s.environment).symm.trans h
  have hinputs : get? (textEntry "github-token" s.token ++ program) "github-token" =
      if s.token.isEmpty then none else some (.str s.token) := by
    rw [get?_append, hprogram, Option.or_none, get?_textEntry_self]
  have henv : get? (if s.environment.isEmpty then []
      else [("env", obj s.environment.sorted)]) "with" = none := by
    split <;> rfl
  rw [at?_obj, get?_append, get?_append, henv, get?_scriptHead (by decide),
    scriptTail]
  generalize textEntry "github-token" s.token ++ program = inputs at hinputs
  rw [← hinputs]
  cases inputs with
  | nil => rfl
  | cons e inputs => exact at?_obj_key (e :: inputs) _

end FlowLock.Step
