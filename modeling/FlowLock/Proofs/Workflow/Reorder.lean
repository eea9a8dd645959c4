import FlowLock.Proofs.SafeOutput.Reorder
import FlowLock.Workflow.Basic

/-!
# Workflows in another order

The settings of a workflow are looked up by their names.  Where only the order of keys
differs, of the settings themselves or of permissions, environments and safe outputs, the
workflow is the same but for the order of three environments.
-/

namespace FlowLock.Workflow

open Outcome Entries

def shuffledKeys : List String := ["permissions", "env"]

/-- The settings whose entries may come in any order, and so may those of the environment
among them. -/
def sectionKeys : List String := ["engine", "safe-outputs"]

/-- How the values of two workflows' settings are related at a key. -/
def SettingsEntry (key : String) (v v' : Value) : Prop :=
  if key ∈ shuffledKeys then v.Shuffled v'
  else if key ∈ sectionKeys then v.SectionShuffled v'
  else v = v'

/-- Settings that are the same but for the order of keys: of the settings themselves, of
permissions and the environment, and of the engine and the safe outputs with their
environments. -/
def SettingsShuffled (settings settings' : Entries) : Prop :=
  Value.Reordered SettingsEntry (.map settings) (.map settings')

theorem settingsEntry_refl (key : String) (v : Value) : SettingsEntry key v v := by
  unfold SettingsEntry
  split
  · exact .same v
  · split
    · exact .same v
    · rfl

theorem settingsEntry_symm (key : String) (v v' : Value) (h : SettingsEntry key v v') :
    SettingsEntry key v' v := by
  unfold SettingsEntry at h ⊢
  split at h
  · next hkey =>
    rw [if_pos hkey]
    exact h.symm
  · next hkey =>
    rw [if_neg hkey]
    split at h
    · next hkey =>
      rw [if_pos hkey]
      exact h.symm
    · next hkey =>
      rw [if_neg hkey]
      exact h.symm

variable {settings settings' : Entries}

theorem SettingsShuffled.symm (h : SettingsShuffled settings settings') :
    SettingsShuffled settings' settings :=
  Value.Reordered.symm settingsEntry_symm h

/-! ## Looking settings up -/

theorem SettingsShuffled.getD (h : SettingsShuffled settings settings') (key : String) :
    SettingsEntry key (getD settings key) (getD settings' key) := by
  have hrel := related_get? settingsEntry_refl h key
  unfold Entries.getD
  generalize get? settings key = a, get? settings' key = b at hrel
  cases hrel with
  | none => exact settingsEntry_refl key _
  | some hv => exact hv

theorem SettingsShuffled.get?_eq (h : SettingsShuffled settings settings') {key : String}
    (hkey : key ∉ shuffledKeys ++ sectionKeys) :
    get? settings' key = get? settings key := by
  obtain ⟨hshuffled, hsection⟩ := not_or.mp (mt List.mem_append.mpr hkey)
  have hrel := related_get? settingsEntry_refl h key
  generalize get? settings key = a, get? settings' key = b at hrel
  cases hrel with
  | none => rfl
  | some hv =>
    rw [SettingsEntry, if_neg hshuffled, if_neg hsection] at hv
    rw [hv]

theorem SettingsShuffled.getD_eq (h : SettingsShuffled settings settings') {key : String}
    (hkey : key ∉ shuffledKeys ++ sectionKeys) :
    Entries.getD settings' key = Entries.getD settings key := by
  rw [Entries.getD, Entries.getD, h.get?_eq hkey]

/-! ## Building -/

/-- A workflow with other environments: its own, that of the engine and that of the safe
outputs. -/
def withEnvironments (w : Workflow) (own running processing : Table String) : Workflow :=
  { w with
    environment := own
    engine := w.engine.withEnvironment running
    safeOutputs := w.safeOutputs.map (·.withEnvironment processing) }

/-- Two workflows that are the same but for the order of their environments. -/
def Shuffled (w w' : Workflow) : Prop :=
  ∃ own running processing, w' = w.withEnvironments own running processing ∧
    Table.Shuffled w.environment own ∧ Table.Shuffled w.engine.environment running ∧
    ∀ s, w.safeOutputs = some s → Table.Shuffled s.environment processing

theorem lifts_parsePermissions (h : SettingsShuffled settings settings') (imports : Imports) :
    Lifts Eq (parsePermissions settings imports) (parsePermissions settings' imports) := by
  have hown : Lifts Eq (Permissions.parse (getD settings "permissions"))
      (Permissions.parse (getD settings' "permissions")) := fun p hp =>
    ⟨p, Permissions.parse_of_shuffled (h.getD "permissions") hp, rfl⟩
  refine hown.bind ?_
  rintro own _ rfl
  exact .refl _

theorem engineSetting_shuffled (h : SettingsShuffled settings settings') (imports : Imports) :
    (engineSetting settings imports).SectionShuffled (engineSetting settings' imports) := by
  have hengine : (getD settings "engine").SectionShuffled
      (getD settings' "engine") := h.getD "engine"
  unfold engineSetting
  generalize getD settings "engine" = v, getD settings' "engine" = v' at hengine
  cases hengine with
  | same => exact .same _
  | obj h => exact .obj h

/-- **The workflow of settings in another order** is the same but for the order of its
environments. -/
theorem lifts_build (h : SettingsShuffled settings settings') (body : String) (source : Path)
    (imports : Imports) (mode : ActionMode) (digest : String) :
    Lifts Shuffled (build settings body source imports mode digest)
      (build settings' body source imports mode digest) := by
  have hname : nameOf settings' body source = nameOf settings body source := by
    rw [nameOf, nameOf, h.getD_eq (by decide : "name" ∉ _)]
  have hfeatures : parseFeatures settings' imports = parseFeatures settings imports := by
    rw [parseFeatures, parseFeatures, h.getD_eq (by decide : "features" ∉ _)]
  have htimeout : parseTimeout settings' = parseTimeout settings := by
    rw [parseTimeout, parseTimeout, h.get?_eq (by decide : "timeout-minutes" ∉ _)]
  have hget := fun key (hkey : key ∉ shuffledKeys ++ sectionKeys) => h.getD_eq hkey
  have hfind := fun key (hkey : key ∉ shuffledKeys ++ sectionKeys) => h.get?_eq hkey
  unfold build
  dsimp only
  rw [hname, hfeatures, htimeout, hfind "inlined-imports" (by decide), hfind "strict" (by decide),
    hfind "runs-on" (by decide), hget "steps" (by decide), hget "on" (by decide),
    hget "sandbox" (by decide), hget "tools" (by decide), hget "mcp-servers" (by decide),
    hget "network" (by decide), hget "checkout" (by decide), hget "description" (by decide),
    hget "tracker-id" (by decide), hget "version" (by decide), hget "post-steps" (by decide),
    hget "if" (by decide), hget "safe-inputs" (by decide), hget "concurrency" (by decide)]
  refine (lifts_parsePermissions h imports).bind ?_
  rintro permissions _ rfl
  refine .bind_same _ fun features => .bind_same _ fun inlining => .bind_same _ fun strict => ?_
  refine .bind_same _ fun steps => .bind_same _ fun on => ?_
  refine (EngineSettings.lifts_parse (engineSetting_shuffled h imports) _).bind
    fun engine _ hengine => ?_
  refine .bind_same _ fun tools => .bind_same _ fun network => .bind_same _ fun checkouts => ?_
  refine (SafeOutputs.lifts_parse (h.getD "safe-outputs") _).bind fun outputs _ houtputs => ?_
  refine .bind_same _ fun description => .bind_same _ fun tracker => .bind_same _ fun version => ?_
  refine (Setting.lifts_environment (h.getD "env") _).bind fun environment _ henvironment => ?_
  refine .bind_same _ fun postSteps => .bind_same _ fun timeout => .bind_same _ fun condition => ?_
  refine .bind_same _ fun inputs => .ok ?_
  obtain ⟨running, rfl, hrunning⟩ := hengine
  cases houtputs with
  | none => exact ⟨_, _, [], rfl, henvironment, hrunning, fun s hs => nomatch hs⟩
  | some houtputs =>
    obtain ⟨processing, rfl, hprocessing⟩ := houtputs
    refine ⟨_, _, processing, rfl, henvironment, hrunning, ?_⟩
    rintro s ⟨⟩
    exact hprocessing

end FlowLock.Workflow
