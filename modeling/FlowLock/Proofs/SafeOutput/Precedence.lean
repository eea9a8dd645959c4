import FlowLock.Proofs.Outcome
import FlowLock.Proofs.Table
import FlowLock.SafeOutput.Section

/-!
# Imports fill gaps only

The safe outputs of a workflow are read from its own section and from the types that its imports
declare.  What holds for all types is read from the section alone.  A type is configured as the
section says, and only when the section does not name it as the imports say.
-/

namespace FlowLock.SafeOutputs

open Outcome SafeOutput List Table Entries

/-! ## Declared types -/

theorem key_not_mem_sectionKeys (kind : Kind) : sectionKeys.contains kind.key = false := by
  cases kind <;> decide

/-- The value that entries give to a type: the last one that is written under its key. -/
def declared? (es : Entries) (kind : Kind) : Option Value :=
  last? (es.map fun e => (e.1.plain, e.2)) kind.key

variable {es : Entries} {imported done d : Table Value} {kinds : List Kind} {outputs : List Output}
  {kind : Kind}

theorem get?_declaredIn (h : declaredIn es done = .ok d) (kind : Kind) :
    d.get? kind.key = (declared? es kind).or (done.get? kind.key) := by
  induction es generalizing done with
  | nil =>
    cases h
    rfl
  | cons e es ih =>
    rw [declaredIn] at h
    rw [declared?, map_cons, last?_cons, ← declared?]
    split at h
    case isTrue hsection =>
      have hne : e.1.plain ≠ kind.key := by
        intro heq
        rw [heq, key_not_mem_sectionKeys] at hsection
        cases hsection
      rw [ih h, if_neg hne, Option.or_none]
    case isFalse =>
      obtain ⟨-, -, h⟩ := bind_eq_ok.mp h
      rw [ih h, get?_set, Option.or_assoc]
      split <;> rfl

theorem get?_declaredWith (h : declaredWith imported done = .ok d) (kind : Kind) :
    d.get? kind.key = (done.get? kind.key).or (imported.get? kind.key) := by
  induction imported generalizing done with
  | nil =>
    cases h
    exact Option.or_none.symm
  | cons e imported ih =>
    rw [declaredWith] at h
    rw [get?_cons]
    split at h
    case isTrue hskip =>
      rw [ih h]
      by_cases hkey : e.1 = kind.key
      · -- The key is one of a type, so it is skipped for being declared already.
        rw [hkey, key_not_mem_sectionKeys, Bool.false_or, has_eq_isSome] at hskip
        obtain ⟨setting, hsetting⟩ := Option.isSome_iff_exists.mp hskip
        rw [hsetting, Option.some_or, Option.some_or]
      · rw [if_neg hkey]
    case isFalse hnew =>
      obtain ⟨-, -, h⟩ := bind_eq_ok.mp h
      rw [ih h, get?_set]
      by_cases hkey : e.1 = kind.key
      · have hnone : done.get? kind.key = none := by
          rw [Bool.or_eq_true, not_or, has_eq_isSome, hkey] at hnew
          simpa using hnew.2
        rw [if_pos hkey, if_pos hkey, hnone]
        rfl
      · rw [if_neg hkey, if_neg hkey]

/-! ## Configured types -/

/-- A type with its record, as the declared types configure it. -/
def Configures (d : Table Value) (kind : Kind) (o : Output) : Prop :=
  ∃ setting, configured? d kind = some setting ∧ Output.parse kind setting = .ok o

/-- Each type that is configured has its record, in the order of the types. -/
theorem forall₂_of_parseOutputs
    {found : { outputs : List Output // (outputs.map (·.kind)).Sublist kinds }}
    (h : parseOutputs d kinds = .ok found) :
    Forall₂ (Configures d) (kinds.filter fun kind => (configured? d kind).isSome)
      found.val := by
  induction kinds with
  | nil =>
    cases h
    exact .nil
  | cons kind kinds ih =>
    rw [parseOutputs] at h
    rw [filter_cons]
    split at h
    · next hnone =>
      obtain ⟨rest, hrest, h⟩ := bind_eq_ok.mp h
      cases h
      rw [hnone, if_neg (by simp)]
      exact ih hrest
    · next setting hsome =>
      split at h
      · cases h
      · next o ho =>
        obtain ⟨rest, hrest, h⟩ := bind_eq_ok.mp h
        cases h
        rw [hsome, if_pos Option.isSome_some]
        exact .cons ⟨setting, hsome, ho⟩ (ih hrest)

theorem map_kind_of_forall₂ (h : Forall₂ (Configures d) kinds outputs) :
    outputs.map (·.kind) = kinds := by
  induction h with
  | nil => rfl
  | cons ho _ ih =>
    obtain ⟨setting, -, hparse⟩ := ho
    rw [map_cons, ih, Output.kind_of_parse hparse]

/-- Where no type is repeated, the record that is found for a type is its own. -/
theorem find?_eq_some_iff (h : Forall₂ (Configures d) kinds outputs) (hnodup : kinds.Nodup)
    {o : Output} :
    outputs.find? (fun o => o.kind == kind) = some o ↔ kind ∈ kinds ∧ Configures d kind o := by
  induction h with
  | nil => simp
  | @cons first o' kinds outputs ho hrest ih =>
    obtain ⟨hnew, hnodup⟩ := nodup_cons.mp hnodup
    obtain ⟨setting, hsetting, hparse⟩ := ho
    have hkind := Output.kind_of_parse hparse
    by_cases heq : first = kind
    · subst heq
      rw [find?_cons_of_pos (by simp [hkind])]
      constructor
      · rintro ⟨⟩
        exact ⟨mem_cons_self, setting, hsetting, hparse⟩
      · rintro ⟨-, other, hother, ho⟩
        rw [hsetting] at hother
        cases hother
        rw [hparse] at ho
        cases ho
        rfl
    · rw [find?_cons_of_neg (by simp [hkind, heq]), ih hnodup, mem_cons, or_iff_right (Ne.symm heq)]

theorem isSome_find?_iff (h : Forall₂ (Configures d) kinds outputs) :
    (outputs.find? fun o => o.kind == kind).isSome ↔ kind ∈ kinds := by
  rw [isSome_find?, any_eq_true, ← map_kind_of_forall₂ h, mem_map]
  simp only [beq_iff_eq]

/-! ## Settings for all types -/

/-- The settings of a section that hold for all its types, as its entries give them. -/
structure ReadFrom (es : Entries) (s : SafeOutputs) : Prop where
  staged : readStaged es = .ok s.staged
  maxPatchSize : readPatchSize es = .ok s.maxPatchSize
  steps : readSteps es = .ok s.steps
  token : readText es "github-token" "" = .ok s.token
  runsOn : readText es "runs-on" "ubuntu-slim" = .ok s.runsOn
  app : GitHubApp.parse (getD es "app") "safe-outputs.app" = .ok s.app
  environment : readEnvironment (getD es "env") = .ok s.environment
  footer : readFooter (getD es "footer") = .ok s.footer
  idToken : readIdToken (getD es "id-token") = .ok s.idToken
  messages : readMessages (getD es "messages") = .ok s.messages
  allowedDomains : readDomains (getD es "allowed-domains") = .ok s.allowedDomains

theorem ofEntries_eq_ok (h : ofEntries es imported = .ok s) :
    ReadFrom es s ∧ ∃ own d, declaredIn es [] = .ok own ∧ declaredWith imported own = .ok d ∧
      parseOutputs d Kind.all = .ok ⟨s.outputs, s.ordered⟩ := by
  simp only [ofEntries, bind_eq_ok] at h
  obtain ⟨own, hown, d, hd, ⟨outputs, ordered⟩, houtputs, staged, hstaged, size, hsize, steps,
    hsteps, token, htoken, runsOn, hrunsOn, h⟩ := h
  dsimp only at h
  split at h
  · cases h
  · simp only [bind_eq_ok] at h
    obtain ⟨app, happ, environment, henvironment, footer, hfooter, idToken, hidToken, messages,
      hmessages, domains, hdomains, h⟩ := h
    cases h
    exact ⟨⟨hstaged, hsize, hsteps, htoken, hrunsOn, happ, henvironment, hfooter, hidToken,
      hmessages, hdomains⟩, own, d, hown, hd, houtputs⟩

/-- Sections with the same entries differ in their types at most. -/
theorem ReadFrom.eq_withOutputs {s' : SafeOutputs} (h : ReadFrom es s) (h' : ReadFrom es s') :
    s' = { s with outputs := s'.outputs, ordered := s'.ordered } := by
  cases s
  cases s'
  obtain ⟨⟩ := h.staged.symm.trans h'.staged
  obtain ⟨⟩ := h.maxPatchSize.symm.trans h'.maxPatchSize
  obtain ⟨⟩ := h.steps.symm.trans h'.steps
  obtain ⟨⟩ := h.token.symm.trans h'.token
  obtain ⟨⟩ := h.runsOn.symm.trans h'.runsOn
  obtain ⟨⟩ := h.app.symm.trans h'.app
  obtain ⟨⟩ := h.environment.symm.trans h'.environment
  obtain ⟨⟩ := h.footer.symm.trans h'.footer
  obtain ⟨⟩ := h.idToken.symm.trans h'.idToken
  obtain ⟨⟩ := h.messages.symm.trans h'.messages
  obtain ⟨⟩ := h.allowedDomains.symm.trans h'.allowedDomains
  rfl

/-! ## Sections with imports -/

def ownSetting? (v : Value) (kind : Kind) : Option Value := declared? (v.entries?.getD []) kind

/-- What a section and its imports say about a type: the section comes first. -/
def setting? (v : Value) (imported : Table Value) (kind : Kind) : Option Value :=
  (ownSetting? v kind).or (imported.get? kind.key)

theorem setting?_of_own {setting : Value} (h : ownSetting? v kind = some setting)
    (imported : Table Value) : setting? v imported kind = some setting := by
  rw [setting?, h, Option.some_or]

theorem setting?_of_not_own (h : ownSetting? v kind = none) (imported : Table Value) :
    setting? v imported kind = imported.get? kind.key := by
  rw [setting?, h, Option.none_or]

theorem configured?_eq_some_iff {setting : Value} : configured? d kind = some setting ↔
      d.get? kind.key = some setting ∧ setting.isFalse = false := by
  unfold configured?
  split
  · next h => simp [h]
  · next h =>
    rw [h]
    constructor
    · intro hnone
      cases hnone
    · rintro ⟨⟨⟩, hfalse⟩
      cases hfalse
  · next v hv h =>
    rw [h]
    constructor
    · rintro ⟨⟩
      refine ⟨rfl, ?_⟩
      unfold Value.isFalse
      split
      · exact absurd rfl hv
      · rfl
    · exact fun h => h.1

variable {v : Value} {s : SafeOutputs}

/-- A section that is read is a mapping, unless it is absent. -/
theorem parse_eq_ok (hv : v ≠ .null) {found : Option SafeOutputs}
    (h : parse v imported = .ok found) :
    ∃ es s, v = .map es ∧ found = some s ∧ ofEntries es imported = .ok s := by
  unfold parse at h
  split at h
  · exact absurd rfl hv
  · next es =>
    obtain ⟨s, hs, h⟩ := bind_eq_ok.mp h
    cases h
    exact ⟨es, s, rfl, rfl, hs⟩
  · cases h

/-- **The types of a section with its imports**: each type that they set to anything but false,
in the order of the types, with the record of what they set it to. -/
theorem types_of_ofEntries (h : ofEntries es imported = .ok s) :
    (∀ kind o, s.get? kind = some o ↔ ∃ setting, setting? (.map es) imported kind = some setting ∧
      setting.isFalse = false ∧ Output.parse kind setting = .ok o) ∧
    (∀ kind, (s.get? kind).isSome ↔
      ∃ setting, setting? (.map es) imported kind = some setting ∧ setting.isFalse = false) ∧
    s.outputs.map (·.kind) = Kind.all.filter fun kind => (s.get? kind).isSome := by
  obtain ⟨-, own, d, hown, hd, houtputs⟩ := ofEntries_eq_ok h
  have hget : ∀ kind : Kind, d.get? kind.key = setting? (.map es) imported kind := by
    intro kind
    have hempty : Table.get? ([] : Table Value) kind.key = none := rfl
    rw [get?_declaredWith hd, get?_declaredIn hown, hempty, Option.or_none]
    rfl
  have hconfigured : ∀ {kind : Kind} {setting : Value}, configured? d kind = some setting ↔
      setting? (.map es) imported kind = some setting ∧ setting.isFalse = false := by
    intro kind setting
    rw [configured?_eq_some_iff, hget]
  have hall := forall₂_of_parseOutputs houtputs
  have hmem : ∀ kind : Kind, kind ∈ Kind.all := by
    intro kind
    cases kind <;> decide
  have hfound : ∀ kind, (s.get? kind).isSome = (configured? d kind).isSome := by
    intro kind
    rw [Bool.eq_iff_iff, get?, isSome_find?_iff hall, mem_filter, and_iff_right (hmem kind)]
  refine ⟨fun kind o => ?_, fun kind => ?_, ?_⟩
  · have hnodup : Kind.all.Nodup := by decide
    rw [get?, find?_eq_some_iff hall (hnodup.sublist filter_sublist), mem_filter,
      and_iff_right (hmem kind)]
    constructor
    · rintro ⟨-, setting, hsetting, ho⟩
      obtain ⟨hsetting, hfalse⟩ := hconfigured.mp hsetting
      exact ⟨setting, hsetting, hfalse, ho⟩
    · rintro ⟨setting, hsetting, hfalse, ho⟩
      have hsetting := hconfigured.mpr ⟨hsetting, hfalse⟩
      exact ⟨Option.isSome_iff_exists.mpr ⟨setting, hsetting⟩, setting, hsetting, ho⟩
  · rw [hfound, Option.isSome_iff_exists]
    exact exists_congr fun setting => hconfigured
  · rw [map_kind_of_forall₂ hall]
    exact filter_congr fun kind _ => (hfound kind).symm

/-- **Imports fill gaps only.**  A section that is there is read with two sets of imports.  All
settings that hold for all types are the same.  A type that the section names has the same
record, or is missing, whatever the imports say; it is missing if the section sets it to false.
A type that the section does not name is there exactly when the imports set it to anything but
false, and then has the record of that value.  The types come in their own order. -/
theorem imports_fill_gaps (hv : v ≠ .null) {imported' : Table Value}
    {found found' : Option SafeOutputs} (h : parse v imported = .ok found)
    (h' : parse v imported' = .ok found') :
    ∃ s s', found = some s ∧ found' = some s' ∧
      s' = { s with outputs := s'.outputs, ordered := s'.ordered } ∧
      (∀ kind setting, ownSetting? v kind = some setting →
        s'.get? kind = s.get? kind ∧ (setting.isFalse = true → s.get? kind = none)) ∧
      (∀ kind, ownSetting? v kind = none →
        ((s.get? kind).isSome = true ↔
          ∃ setting, imported.get? kind.key = some setting ∧ setting.isFalse = false) ∧
        ∀ o, s.get? kind = some o ↔ ∃ setting, imported.get? kind.key = some setting ∧
          setting.isFalse = false ∧ Output.parse kind setting = .ok o) ∧
      s.outputs.map (·.kind) = Kind.all.filter fun kind => (s.get? kind).isSome := by
  obtain ⟨es, s, rfl, rfl, hs⟩ := parse_eq_ok hv h
  obtain ⟨_, s', ⟨⟩, rfl, hs'⟩ := parse_eq_ok hv h'
  obtain ⟨hrecord, hpresent, horder⟩ := types_of_ofEntries hs
  obtain ⟨hrecord', -, -⟩ := types_of_ofEntries hs'
  refine ⟨s, s', rfl, rfl, (ofEntries_eq_ok hs).1.eq_withOutputs (ofEntries_eq_ok hs').1, ?_, ?_,
    horder⟩
  · intro kind setting hown
    refine ⟨Option.ext fun o => ?_, fun hfalse => ?_⟩
    · rw [hrecord', hrecord, setting?_of_own hown, setting?_of_own hown]
    · rw [Option.eq_none_iff_forall_ne_some]
      intro o ho
      obtain ⟨_, hsetting, htrue, -⟩ := (hrecord kind o).mp ho
      cases (setting?_of_own hown imported).symm.trans hsetting
      rw [hfalse] at htrue
      cases htrue
  · intro kind hown
    rw [hpresent, setting?_of_not_own hown]
    refine ⟨Iff.rfl, fun o => ?_⟩
    rw [hrecord, setting?_of_not_own hown]

def precedenceSection : Value :=
  .obj [("github-token", .str "$\x7b\x7b secrets.OWN \x7d\x7d"), ("create-issue", .bool false),
    ("add-labels", .obj [("max", .int 2)])]

def greedyImports : Table Value :=
  [("github-token", .str "$\x7b\x7b secrets.OTHER \x7d\x7d"), ("create-issue", .null),
   ("add-labels", .obj [("max", .int 99)]), ("noop", .null)]

/-- The imports get the one type that the section does not name, and nothing else. -/
theorem imports_fill_gaps_greedy :
    ∃ s s', parse precedenceSection greedyImports = .ok (some s) ∧
      parse precedenceSection [] = .ok (some s') ∧
      s.token = "$\x7b\x7b secrets.OWN \x7d\x7d" ∧ s'.token = s.token ∧
      s.get? .createIssue = none ∧ s.get? .addLabels = s'.get? .addLabels ∧
      (s.get? .addLabels).isSome = true ∧ (s.get? .noop).isSome = true ∧
      s.outputs.map (·.kind) = [.addLabels, .noop] := by
  obtain ⟨_, h, s, rfl, htoken, hlabels, hkinds⟩ : ∃ found,
      parse precedenceSection greedyImports = .ok found ∧ ∃ s ∈ found,
        s.token = "$\x7b\x7b secrets.OWN \x7d\x7d" ∧ (s.get? .addLabels).isSome ∧
          s.outputs.map (·.kind) = [.addLabels, .noop] := by decide
  obtain ⟨found', h'⟩ : ∃ found', parse precedenceSection [] = .ok found' := by decide
  have hv : precedenceSection ≠ .null := nofun
  obtain ⟨_, s', ⟨⟩, rfl, hsection, hown, hgap, -⟩ := imports_fill_gaps hv h h'
  refine ⟨s, s', h, h', htoken, ?_, (hown .createIssue (.bool false) rfl).2 rfl,
    (hown .addLabels _ rfl).1.symm, hlabels, (hgap .noop rfl).1.mpr ⟨.null, rfl, rfl⟩, hkinds⟩
  rw [hsection]

end FlowLock.SafeOutputs
