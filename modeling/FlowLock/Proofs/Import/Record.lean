import FlowLock.Import.Resolve
import FlowLock.Proofs.Outcome

/-!
# What a file leaves in the record of imports

A file goes to the end of the files, and its text to one of two places: it is taken now, or
the file is named among what is taken at run time.  A document that is no agent file also
adds its declarations.
-/

namespace FlowLock

open Entries

/-- What is taken of a text: it is trimmed of line ends and followed by a blank line, and a
blank text is left out. -/
def Import.taken (text : String) : String :=
  if Text.isAllBlank text then "" else Text.trimWhere (· == '\n') text ++ "\n\n"

/-- How a file is named among what is taken at run time.  Agent files are taken whole. -/
def Import.File.reference (file : Import.File) : String :=
  match file.isAgent, file.entry.heading with
  | false, some heading => s!"{file.shown}#{heading}"
  | _, _ => file.shown

namespace Imports

open Import Outcome

variable {i i' : Imports} {inlining : Bool} {stack : List Path} {file : File}

/-- The imports with one more file, whose text is taken now or at run time. -/
def record (i : Imports) (file : File) : Imports :=
  { i with
    files := i.files ++ [file]
    inlined := i.inlined ++ if file.isInlined then taken file.body else ""
    atRunTime := i.atRunTime ++ if file.isInlined then [] else [file.reference] }

/-- The imports with the declarations of one more document, whose permissions are already
joined with those before. -/
def withDeclared (i : Imports) (settings permissions : Entries) : Imports :=
  { i with
    permissions
    tools :=
      (match (getD settings "tools").entries? with
        | some es => merge i.tools es
        | none => i.tools)
    servers := firstDeclared i.servers (getD settings "mcp-servers")
    safeOutputs := firstDeclared i.safeOutputs (getD settings "safe-outputs")
    steps := i.steps ++ ((getD settings "steps").items?).getD []
    domains := addTexts i.domains (allowedDomains (getD settings "network"))
    features := firstDeclared i.features (getD settings "features")
    engines := i.engines ++
      (match getD settings "engine" with
        | .null => []
        | v => [v]) }

theorem declare_eq_ok {settings : Entries} : i.declare settings = .ok i' ↔
      ∃ permissions, joinPermissions i.permissions (getD settings "permissions") =
        .ok permissions ∧ i' = i.withDeclared settings permissions := by
  unfold declare
  rw [bind_eq_ok]
  simp only [Except.ok.injEq, eq_comm (b := i')]
  rfl

theorem inline_addFile (i : Imports) (h : file.isInlined) :
    (i.addFile file).inline file.body = i.record file := by
  unfold inline record taken addFile
  rw [if_pos h, if_pos h]
  split <;> simp [String.append_assoc]

theorem defer_addFile (i : Imports) (h : file.isInlined = false) :
    (i.addFile file).defer file.reference = i.record file := by
  simp [record, addFile, defer, h]

theorem addAgent_eq_ok (hagent : file.isAgent) (hfile : file.isInlined = false) :
    i.addAgent inlining stack file = .ok i' ↔ inlining = false ∧ i.agentFile = none ∧
        i' = { i with agentFile := some file.shown, agentEntry := some file.entry.shown }.record
          { file with isInlined := !file.entry.inputs.isEmpty } := by
  have hreference : file.shown = file.reference := by simp [File.reference, hagent]
  unfold addAgent
  cases inlining with
  | true => simp
  | false =>
    cases hother : i.agentFile with
    | some other => simp
    | none =>
      cases hinputs : file.entry.inputs.isEmpty with
      | true =>
        have hdefer := defer_addFile
          { i with agentFile := some file.shown, agentEntry := some file.entry.shown } hfile
        have hkeep : { file with isInlined := !true } = file := by simp [← hfile]
        rw [hkeep, ← hdefer, ← hreference]
        simp [eq_comm]
      | false =>
        have hinline : ∀ j : Imports, (j.addFile { file with isInlined := true }).inline file.body =
              j.record { file with isInlined := true } := fun j => inline_addFile j rfl
        simp [← hinline, eq_comm]

theorem addDocument_eq_ok (hagent : file.isAgent = false) (hfile : file.isInlined = false) :
    i.addDocument inlining file = .ok i' ↔
      ∃ permissions, joinPermissions i.permissions (getD file.settings "permissions") =
          .ok permissions ∧
        i' = (i.withDeclared file.settings permissions).record
          { file with isInlined := inlining || !file.entry.inputs.isEmpty } := by
  have hadd : i.addDocument inlining file = i.declare file.settings >>= fun declared =>
      .ok (declared.record { file with isInlined := inlining || !file.entry.inputs.isEmpty }) := by
    unfold addDocument
    congr 1
    funext declared
    split
    · next h =>
      rw [h]
      exact congrArg _ (inline_addFile declared rfl)
    · next h =>
      have hkeep : { file with isInlined := false } = file := by simp [← hfile]
      rw [(Bool.not_eq_true _).mp h, hkeep, ← defer_addFile declared hfile, File.reference, hagent]
      cases file.entry.heading <;> rfl
  rw [hadd, bind_eq_ok]
  simp only [declare_eq_ok, Except.ok.injEq]
  constructor
  · rintro ⟨-, ⟨permissions, hjoin, rfl⟩, rfl⟩
    exact ⟨permissions, hjoin, rfl⟩
  · rintro ⟨permissions, hjoin, rfl⟩
    exact ⟨_, ⟨permissions, hjoin, rfl⟩, rfl⟩

theorem files_of_addAgent (hagent : file.isAgent) (hfile : file.isInlined = false)
    (h : i.addAgent inlining stack file = .ok i') :
    ∃ isInlined, i'.files = i.files ++ [{ file with isInlined }] := by
  obtain ⟨-, -, rfl⟩ := (addAgent_eq_ok hagent hfile).mp h
  exact ⟨_, rfl⟩

theorem files_of_addDocument (hagent : file.isAgent = false) (hfile : file.isInlined = false)
    (h : i.addDocument inlining file = .ok i') :
    ∃ isInlined, i'.files = i.files ++ [{ file with isInlined }] := by
  obtain ⟨permissions, -, rfl⟩ := (addDocument_eq_ok hagent hfile).mp h
  exact ⟨_, rfl⟩

end Imports

end FlowLock
