import FlowLock.Proofs.Import.LockName
import FlowLock.Proofs.Permission
import FlowLock.Proofs.Table
import FlowLock.Proofs.Text.Distinct

/-!
# The record of imports is told by the files

Twelve things are gathered on the visit of the imports.  None of them depends on the visit
but through the list of files that it leads to: `Summary` gives each of them as a function of
that list, and is kept by every move (`Summary.moved`).

What is left to be taken at run time also holds the documents of other repositories, among
the files in the order in which they were met.  So there is a trace of files and such
documents, of which the list of files and the list of the others are the two parts.
-/

namespace FlowLock

open List Permissions Path Entries Text

namespace Import

/-- A file is what its entry asks for of the document at its path: the whole body or a
section, with the references to inputs replaced. -/
def File.IsLoaded (file : File) (tree : FileTree) (base : Path) : Prop :=
  ∃ document text, documentAt tree file.path = .ok document ∧ (match file.entry.heading with
      | none => some document.body
      | some heading => Markdown.section? document.body heading) = some text ∧
    file.settings = document.settings ∧
    file.body = substitute text file.entry.inputTable ∧
    file.shown = shownPath tree.workdir file.path (some base) ∧
    file.isAgent = isAgentFile file.path.text

def File.entriesOf (file : File) (key : String) : Entries :=
  ((getD file.settings key).entries?).getD []

/-- The entries of a mapping among the settings of a file, by the texts of their keys. -/
def File.declared (file : File) (key : String) : List (String × Value) :=
  (file.entriesOf key).map fun e => (e.1.plain, e.2)

def File.itemsOf (file : File) (key : String) : List Value :=
  ((getD file.settings key).items?).getD []

def File.domains (file : File) : List String :=
  (Imports.allowedDomains (getD file.settings "network")).filterMap fun v =>
    match v with
    | .str s => some s
    | _ => none

end Import

namespace Imports

open Import Outcome

variable {tree : FileTree} {base importer path : Path} {inlining : Bool} {stack : List Path}
  {entry : Entry} {v v' : Visit} {i i' : Imports} {file : File} {settings : Entries}
  {permissions : Entries} {cache : Cache} {source : Path} {r : Resolution}

def documents (i : Imports) : List File := i.files.filter fun f => !f.isAgent

/-! ## Declarations -/

/-- A table keeps the first declaration of every name, in the order in which the names are
declared first. -/
structure Keeps (t : Table Value) (declared : List (String × Value)) : Prop where
  get : ∀ name, t.get? name = Table.get? declared name
  keys : t.keys = (Table.keys declared).eraseDups

namespace Keeps

variable {t : Table Value} {declared : List (String × Value)}

theorem nil : Keeps [] [] := ⟨fun _ => rfl, rfl⟩

theorem setNew (h : Keeps t declared) (e : String × Value) :
    Keeps (t.setNew e.1 e.2) (declared ++ [e]) where
  get := by
    intro name
    rw [Table.get?_setNew, Table.get?_append, h.get, Table.get?_cons]
    rfl
  keys := by
    have hhas : t.has e.1 ↔ e.1 ∈ Table.keys declared := by
      rw [Table.has_eq_isSome, h.get, Option.isSome_iff_ne_none, ne_eq, Table.get?_eq_none_iff,
        not_not]
    have hkeys : Table.keys (declared ++ [e]) = Table.keys declared ++ [e.1] := Table.keys_append ..
    rw [hkeys, eraseDups_concat, ← h.keys, Table.setNew]
    by_cases hmem : e.1 ∈ Table.keys declared
    · rw [if_pos (hhas.mpr hmem), if_pos hmem, append_nil]
    · rw [if_neg (mt hhas.mp hmem), if_neg hmem, Table.keys_append]
      rfl

theorem firstDeclared (h : Keeps t declared) (file : File) (key : String) :
    Keeps (firstDeclared t (getD file.settings key))
      (declared ++ file.declared key) := by
  have hfold : ∀ (es : Entries) {t : Table Value} {declared : List (String × Value)},
      Keeps t declared → Keeps (es.foldl (fun t e => t.setNew e.1.plain e.2) t)
        (declared ++ es.map fun e => (e.1.plain, e.2)) := by
    intro es
    induction es with
    | nil =>
      intro t declared h
      simpa using h
    | cons e es ih =>
      intro t declared h
      simpa using ih (h.setNew (e.1.plain, e.2))
  unfold Imports.firstDeclared File.declared File.entriesOf
  cases (getD file.settings key).entries? with
  | none => simpa using h
  | some es => exact hfold es h

end Keeps

theorem addTexts_eraseDups (texts : List String) (values : List Value) :
    addTexts texts.eraseDups values = (texts ++ values.filterMap fun v =>
        match v with
        | .str s => some s
        | _ => none).eraseDups := by
  induction values generalizing texts with
  | nil => simp [addTexts]
  | cons v values ih =>
    have hstep : addTexts texts.eraseDups (v :: values) =
        addTexts (addTexts texts.eraseDups [v]) values := rfl
    rw [hstep]
    cases v with
    | str s =>
      have hone : addTexts texts.eraseDups [.str s] = (texts ++ [s]).eraseDups := by
        rw [eraseDups_concat]
        by_cases hmem : s ∈ texts <;> simp [addTexts, hmem]
      rw [hone, ih]
      simp
    | _ => exact ih texts

/-- The declarations are those of the documents that are no agent files. -/
structure Declared (i : Imports) : Prop where
  tools : i.tools = i.documents.foldl (fun tools file => merge tools (file.entriesOf "tools")) []
  servers : Keeps i.servers (i.documents.flatMap (·.declared "mcp-servers"))
  safeOutputs : Keeps i.safeOutputs (i.documents.flatMap (·.declared "safe-outputs"))
  features : Keeps i.features (i.documents.flatMap (·.declared "features"))
  steps : i.steps = i.documents.flatMap (·.itemsOf "steps")
  engines : i.engines =
    (i.documents.map fun file => getD file.settings "engine").filter (!·.isNull)
  domains : i.domains = (i.documents.flatMap (·.domains)).eraseDups
  permissions : ∃ ps,
    Forall₂ (fun file p => parse (getD file.settings "permissions") =
      .ok p) i.documents ps ∧ i.permissions = (joinAll ps).entries

theorem declared_empty : Declared {} where
  tools := rfl
  servers := .nil
  safeOutputs := .nil
  features := .nil
  steps := rfl
  engines := rfl
  domains := rfl
  permissions := ⟨[], .nil, rfl⟩

theorem entries_of_joinPermissions {ps : List Permissions} {part : Value} {joined : Entries}
    (h : joinPermissions (joinAll ps).entries part = .ok joined) :
    ∃ p, parse part = .ok p ∧ joined = (joinAll (ps ++ [p])).entries := by
  have hordered : (joinAll ps).IsOrdered := isOrdered_joinAll ps
  have hsnoc : ∀ p, joinAll (ps ++ [p]) = (joinAll ps).join p := by
    intro p
    simp [joinAll]
  unfold joinPermissions at h
  split at h
  · cases h
    refine ⟨.empty, rfl, congrArg _ ?_⟩
    rw [hsnoc]
    exact hordered.ext (isOrdered_ofFun _) fun scope => by simp
  · rw [parse_entries hordered, ok_bind] at h
    obtain ⟨p, hp, h⟩ := bind_eq_ok.mp h
    cases h
    exact ⟨p, hp, by rw [hsnoc]⟩

theorem documents_record (i : Imports) (file : File) :
    (i.record file).documents = i.documents ++ if file.isAgent then [] else [file] := by
  cases h : file.isAgent <;> simp [documents, record, h]

theorem Declared.agent (h : Declared i) (hagent : file.isAgent) : Declared (i.record file) := by
  have hdocuments : (i.record file).documents = i.documents := by
    rw [documents_record, if_pos hagent, append_nil]
  constructor <;> rw [hdocuments]
  exacts [h.tools, h.servers, h.safeOutputs, h.features, h.steps, h.engines, h.domains,
    h.permissions]

theorem Declared.document (h : Declared i) (hagent : file.isAgent = false)
    (hjoin : joinPermissions i.permissions (getD file.settings "permissions") =
      .ok permissions) : Declared ((i.withDeclared file.settings permissions).record file) := by
  have hdocuments : ((i.withDeclared file.settings permissions).record file).documents =
      i.documents ++ [file] := by
    rw [documents_record, hagent]
    rfl
  have htables : ∀ {t : Table Value} {key : String}, Keeps t (i.documents.flatMap (·.declared key)) →
      Keeps (firstDeclared t (getD file.settings key))
        ((i.documents ++ [file]).flatMap (·.declared key)) := by
    intro t key ht
    simpa using ht.firstDeclared file key
  constructor <;> rw [hdocuments]
  case tools =>
    rw [foldl_append, ← h.tools]
    simp only [record, withDeclared, foldl_cons, foldl_nil, File.entriesOf]
    cases (getD file.settings "tools").entries? <;> rfl
  case servers => exact htables h.servers
  case safeOutputs => exact htables h.safeOutputs
  case features => exact htables h.features
  case steps => simp [record, withDeclared, h.steps, File.itemsOf]
  case engines =>
    simp only [record, withDeclared, h.engines, map_append, filter_append]
    congr 1
    cases hengine : getD file.settings "engine" <;> simp [Value.isNull, hengine]
  case domains =>
    simp only [record, withDeclared, h.domains, addTexts_eraseDups]
    simp [File.domains]
  case permissions =>
    obtain ⟨ps, hps, hpermissions⟩ := h.permissions
    rw [hpermissions] at hjoin
    obtain ⟨p, hp, rfl⟩ := entries_of_joinPermissions hjoin
    exact ⟨ps ++ [p], rel_append hps (.cons hp .nil), rfl⟩

/-! ## Texts -/

/-- What is left to be taken at run time of something met on the visit: a file that was not
taken yet, or a document of another repository. -/
def leftOf : File ⊕ String → List String
  | .inl file => if file.isInlined then [] else [file.reference]
  | .inr reference => [reference]

/-- The texts are those of the files, and each file leaves its own in one of two places. -/
structure Recorded (tree : FileTree) (base : Path) (inlining : Bool) (i : Imports) : Prop where
  loaded : ∀ file ∈ i.files, file.IsLoaded tree base
  isInlined : ∀ file ∈ i.files, file.isInlined =
    ((inlining && !file.isAgent) || !file.entry.inputs.isEmpty)
  inlined : i.inlined = String.join ((i.files.filter (·.isInlined)).map fun file => taken file.body)
  atRunTime : ∃ met : List (File ⊕ String), met.filterMap Sum.getLeft? = i.files ∧
    met.filterMap Sum.getRight? = i.remotes ∧ i.atRunTime = met.flatMap leftOf

theorem recorded_empty (tree : FileTree) (base : Path) (inlining : Bool) :
    Recorded tree base inlining {} where
  loaded := by rintro file ⟨⟩
  isInlined := by rintro file ⟨⟩
  inlined := rfl
  atRunTime := ⟨[], rfl, rfl, rfl⟩

theorem Recorded.record (h : Recorded tree base inlining i) (hloaded : file.IsLoaded tree base)
    (hinlined : file.isInlined = ((inlining && !file.isAgent) || !file.entry.inputs.isEmpty)) :
    Recorded tree base inlining (i.record file) where
  loaded := by
    intro f hf
    rcases mem_append.mp hf with hf | hf
    · exact h.loaded f hf
    · exact mem_singleton.mp hf ▸ hloaded
  isInlined := by
    intro f hf
    rcases mem_append.mp hf with hf | hf
    · exact h.isInlined f hf
    · exact mem_singleton.mp hf ▸ hinlined
  inlined := by
    cases hfile : file.isInlined <;> simp [Imports.record, hfile, h.inlined]
  atRunTime := by
    obtain ⟨met, hfiles, hremotes, hleft⟩ := h.atRunTime
    refine ⟨met ++ [.inl file], ?_, ?_, ?_⟩
    · simp [Imports.record, hfiles]
    · simp [Imports.record, hremotes]
    · simp [Imports.record, hleft, leftOf]

/-! ## The summary -/

structure Summary (tree : FileTree) (base : Path) (inlining : Bool) (i : Imports) : Prop extends
  Declared i, Recorded tree base inlining i

theorem Entered.isLoaded (h : Entered tree base importer stack v entry path file cache)
    (hagrees : v.cache.Agrees tree) (isInlined : Bool) :
    File.IsLoaded { file with isInlined } tree base := by
  obtain ⟨cached, text, hread, htext, rfl⟩ := h.loaded
  refine ⟨cached.document, text, hread.documentAt_eq hagrees, ?_, by simp only [fileOf, and_self]⟩
  unfold importedText at htext
  cases hheading : entry.heading with
  | none =>
    rw [hheading] at htext
    simpa [fileOf, hheading] using htext
  | some heading =>
    rw [hheading] at htext
    cases hsection : Markdown.section? cached.document.body heading with
    | none => simp [hsection] at htext
    | some found => simpa [fileOf, hsection, hheading] using htext

theorem Summary.elsewhere (h : Summary tree base inlining v.imports)
    (hv : visitElsewhere? v entry = some v') : Summary tree base inlining v'.imports := by
  obtain ⟨-, ⟨repositories, rfl⟩ | rfl⟩ := visitElsewhere?_eq_some hv
  · exact { h with }
  · obtain ⟨met, hfiles, hremotes, hleft⟩ := h.atRunTime
    refine { h with atRunTime := ⟨met ++ [.inr entry.written], ?_, ?_, ?_⟩ }
    · simp [defer, hfiles]
    · simp [defer, hremotes]
    · simp [defer, hleft, leftOf]

theorem Summary.agent {shown entryShown : Option String} (h : Summary tree base inlining i)
    (hagent : file.isAgent) (hloaded : file.IsLoaded tree base)
    (hinlined : file.isInlined = !file.entry.inputs.isEmpty) :
    Summary tree base inlining
      ({ i with agentFile := shown, agentEntry := entryShown }.record file) := by
  have hwith : Summary tree base inlining { i with agentFile := shown, agentEntry := entryShown } :=
    { h with }
  exact ⟨hwith.toDeclared.agent hagent, hwith.toRecorded.record hloaded (by simp [hinlined, hagent])⟩

theorem Summary.document (h : Summary tree base inlining i) (file : File)
    (hagent : file.isAgent = false) (hloaded : file.IsLoaded tree base)
    (hinlined : file.isInlined = (inlining || !file.entry.inputs.isEmpty))
    (hjoin : joinPermissions i.permissions (getD file.settings "permissions") =
      .ok permissions) :
    Summary tree base inlining ((i.withDeclared file.settings permissions).record file) := by
  have hwith : Recorded tree base inlining (i.withDeclared file.settings permissions) :=
    { h.toRecorded with }
  exact ⟨h.toDeclared.document hagent hjoin, hwith.record hloaded (by simp [hinlined, hagent])⟩

/-- **Every move keeps the record told by the files.** -/
theorem Summary.moved {m : Move} (hmoved : Moved tree base inlining importer stack v entry m)
    (hagrees : v.cache.Agrees tree) (h : Summary tree base inlining v.imports) :
    Summary tree base inlining m.after.imports := by
  cases hmoved with
  | elsewhere hv => exact h.elsewhere hv
  | again _ _ _ _ => exact h
  | agent hentered hagent hadd =>
    obtain ⟨-, -, rfl⟩ := (addAgent_eq_ok hagent hentered.isInlined_eq).mp hadd
    exact h.agent hagent (hentered.isLoaded hagrees _) rfl
  | @document path file cache imports nested hentered hagent hadd _ =>
    obtain ⟨permissions, hjoin, rfl⟩ := (addDocument_eq_ok hagent hentered.isInlined_eq).mp hadd
    exact h.document { file with isInlined := inlining || !file.entry.inputs.isEmpty } hagent
      (hentered.isLoaded hagrees _) rfl hjoin

theorem flatMap_leftOf_isLeft (met : List (File ⊕ String)) :
    (met.filter (·.isLeft)).flatMap leftOf =
      ((met.filterMap Sum.getLeft?).filter (!·.isInlined)).map (·.reference) := by
  induction met with
  | nil => rfl
  | cons x met ih =>
    rcases x with file | reference
    · rw [filter_cons_of_pos rfl, flatMap_cons, ih, filterMap_cons, Sum.getLeft?_inl]
      cases hfile : file.isInlined <;> simp [leftOf, hfile]
    · rw [filter_cons_of_neg Bool.false_ne_true, ih, filterMap_cons, Sum.getLeft?_inr]

/-- What a successful visit of the imports records. -/
theorem summary_of_resolve (hagrees : cache.Agrees tree)
    (h : resolve tree cache inlining source settings = .ok r) :
    Summary tree (Path.resolve tree.workdir source).parent inlining r.imports := by
  obtain ⟨visited, hkept⟩ := resolve_rule (P := fun v => Summary tree _ inlining v.imports)
    (Q := fun _ => True) rfl hagrees h (fun _ _ => trivial) (fun _ _ _ _ => trivial)
    (fun _ hagrees hv hmoved => hv.moved hmoved hagrees)
    ⟨declared_empty, recorded_empty tree _ inlining⟩
  exact hkept

/-- **Resolving records what the files tell.**

When resolving succeeds, with a cache that is right about the tree, every imported file is
what its entry asks for of the document at its path.  What is declared is told by the files
that are no agent files, in their order: tools merged from left to right, the first
declaration of each server, safe output and feature, all steps and engines, the domains
without repetitions, and for each scope the highest level.  The texts that are taken now are
those of the files that are inlined, and the others are named among what is taken at run
time; a file that is no agent file is inlined when all are, or when its entry gives inputs. -/
theorem resolve_summary (tree : FileTree) (cache : Cache) (inlining : Bool) (source : Path)
    (settings : Entries) (hagrees : cache.Agrees tree) (r : Resolution)
    (h : resolve tree cache inlining source settings = .ok r) :
    Summary tree (Path.resolve tree.workdir source).parent inlining r.imports ∧
    (∃ p ps, r.imports.permissions = entries p ∧
      List.Forall₂ (fun file q => parse (getD file.settings "permissions") =
        .ok q) r.imports.documents ps ∧
      ∀ scope, IsHighest ps scope (p.get scope)) ∧
    (∃ met : List (File ⊕ String), met.filterMap Sum.getLeft? = r.imports.files ∧
      r.imports.atRunTime = met.flatMap leftOf ∧
      (met.filter (·.isLeft)).flatMap leftOf =
        (r.imports.files.filter (!·.isInlined)).map (·.reference)) ∧
    ∀ file ∈ r.imports.documents,
      file.isInlined = true ↔ inlining = true ∨ file.entry.inputs ≠ [] := by
  have hsummary := summary_of_resolve hagrees h
  refine ⟨hsummary, ?_, ?_, ?_⟩
  · obtain ⟨ps, hps, hpermissions⟩ := hsummary.permissions
    exact ⟨_, ps, hpermissions, hps, isHighest_joinAll ps⟩
  · obtain ⟨met, hfiles, -, hleft⟩ := hsummary.atRunTime
    exact ⟨met, hfiles, hleft, hfiles ▸ flatMap_leftOf_isLeft met⟩
  · intro file hfile
    obtain ⟨hmem, hagent⟩ := mem_filter.mp hfile
    have hagent : file.isAgent = false := by simpa using hagent
    rw [hsummary.isInlined file hmem, hagent]
    simp

/-- A document, one with inputs, a section, an agent file and a document of another repository. -/
theorem resolve_summary_of_five :
    let tree : FileTree :=
      { nodes :=
          [(["repo", "a.md"], .file (Utf8.encode "---\npermissions: \x7bissues: read\x7d\n---\nA\n")),
           (["repo", "b.md"], .file (Utf8.encode "---\npermissions: \x7bissues: write\x7d\n---\nB\n")),
           (["repo", "c.md"], .file (Utf8.encode "# One\nC\n# Two\nD\n")),
           (["repo", ".github", "agents", "d.md"], .file (Utf8.encode "E\n"))]
        workdir := ofText "/repo" }
    let source := ofText "main.md"
    let settings : Entries :=
      [(.str "imports", .list
        [.str "a.md", .str "owner/name/x.md@v1",
         .map [(.str "path", .str "b.md"), (.str "inputs", .map [(.str "n", .int 1)])],
         .str "c.md#Two", .str ".github/agents/d.md"])]
    Cache.empty.Agrees tree ∧
    ∃ r, resolve tree .empty false source settings = .ok r ∧
      r.imports.atRunTime =
        ["a.md", "owner/name/x.md@v1", "c.md#Two", ".github/agents/d.md"] ∧
      r.imports.inlined = "B\n\n" ∧ r.imports.documents.map (·.isInlined) = [false, true, false] ∧
      Summary tree (ofText "/repo") false r.imports := by
  intro tree source settings
  have hagrees := Cache.agrees_empty tree
  obtain ⟨r, hr, hleft, hinlined, hdocuments⟩ : ∃ r,
      resolve tree .empty false source settings = .ok r ∧
      r.imports.atRunTime =
        ["a.md", "owner/name/x.md@v1", "c.md#Two", ".github/agents/d.md"] ∧
      r.imports.inlined = "B\n\n" ∧ r.imports.documents.map (·.isInlined) = [false, true, false] := by
    decide +kernel
  refine ⟨hagrees, r, hr, hleft, hinlined, hdocuments, ?_⟩
  exact (resolve_summary tree .empty false source settings hagrees r hr).1

/-! ## Requests -/

/-- A local entry in the import list of the main document or of an imported document. -/
structure Requests (i : Imports) (tree : FileTree) (root : Path) (settings : Entries)
    (importer : Path) (entry : Entry) : Prop where
  imported : importer = root ∨ importer ∈ i.documents.map (·.path)
  declared : entry ∈ declaredAt tree root settings importer
  isLocal : entry.isLocal = true

/-- What an entry asks for of the file at a path reaches the prompt: its text is among those taken
now, or it is named among what is taken at run time. -/
def Serves (i : Imports) (tree : FileTree) (base path : Path) (entry : Entry) : Prop :=
  ∃ file : File, file.path = path ∧ file.entry = entry ∧ file.IsLoaded tree base ∧
    (Within (trimWhere (· == '\n') file.body) i.inlined ∨
      file.reference ∈ i.atRunTime)

theorem Recorded.serves (h : Recorded tree base inlining i) (hfile : file ∈ i.files)
    (hblank : isAllBlank file.body = false) (hheading : entry.heading = file.entry.heading)
    (hinputs : entry.inputs = file.entry.inputs) : Serves i tree base file.path entry := by
  refine ⟨{ file with entry }, rfl, rfl, ?_, ?_⟩
  · have hloaded := h.loaded file hfile
    simpa only [File.IsLoaded, Entry.inputTable, hheading, hinputs] using hloaded
  · cases hinlined : file.isInlined with
    | true =>
      refine .inl ?_
      have htaken : Within (taken file.body) i.inlined := by
        rw [h.inlined]
        exact .join (mem_map_of_mem (mem_filter.mpr ⟨hfile, hinlined⟩))
      refine Within.trans ?_ htaken
      rw [taken, hblank]
      exact (Within.refl _).append_right _
    | false =>
      refine .inr ?_
      obtain ⟨met, hfiles, -, hleft⟩ := h.atRunTime
      obtain ⟨x, hx, hfile⟩ := mem_filterMap.mp (hfiles ▸ hfile)
      obtain rfl := Sum.getLeft?_eq_some_iff.mp hfile
      rw [hleft]
      refine mem_flatMap.mpr ⟨_, hx, ?_⟩
      simp [leftOf, hinlined, File.reference, hheading]

/-- Every file was entered over a local entry of a document on the way to it. -/
theorem exists_request (hagrees : cache.Agrees tree)
    (h : resolve tree cache inlining source settings = .ok r) :
    ∀ file ∈ r.imports.files, ∃ stack importer,
      Asked tree (Path.resolve tree.workdir source) settings importer stack file.entry ∧
      file.entry.isLocal ∧ file.path = file.entry.leadsTo tree importer := by
  obtain ⟨visited, hfiles⟩ := resolve_rule (P := fun v => ∀ file ∈ v.imports.files,
      ∃ stack importer, Asked tree _ settings importer stack file.entry ∧
        file.entry.isLocal ∧ file.path = file.entry.leadsTo tree importer)
    (Q := fun _ => True) rfl hagrees h (fun _ _ => trivial) (fun _ _ _ _ => trivial)
    (fun {importer stack _ _ _} hasked _ hv hmoved => hmoved.forall_files hv fun inlined hentered => by
      obtain ⟨cached, text, -, -, rfl⟩ := hentered.loaded
      exact ⟨stack, importer, hasked, hentered.isLocal, hentered.path_eq⟩)
    (forall_mem_nil _)
  exact hfiles

/-- **Of each file that is asked for, what one entry asks for is served.**

When resolving succeeds, a local entry of the main document or of an imported one leads to an
imported file, unless to an agent file.  There is one file at its path, which was entered over an
entry of such a document.  What that entry asks for reaches the prompt, and with it what any other
asks for that names the same section and gives the same inputs, but for a text that is all blank. -/
theorem request_served (tree : FileTree) (cache : Cache) (inlining : Bool) (source : Path)
    (settings : Entries) (hagrees : cache.Agrees tree) (r : Resolution)
    (h : resolve tree cache inlining source settings = .ok r) (importer : Path) (entry : Entry)
    (hasked : Requests r.imports tree (Path.resolve tree.workdir source) settings importer entry)
    (hagent : isAgentFile (entry.leadsTo tree importer).text = false) :
    ∃ file ∈ r.imports.documents, file.path = entry.leadsTo tree importer ∧
      (∀ other ∈ r.imports.files, other.path = file.path → other = file) ∧
      (∃ first, Requests r.imports tree (Path.resolve tree.workdir source) settings first
        file.entry ∧ file.path = file.entry.leadsTo tree first) ∧
      ∀ request : Entry, request.heading = file.entry.heading →
        request.inputs = file.entry.inputs → isAllBlank file.body = false →
        Serves r.imports tree (Path.resolve tree.workdir source).parent file.path request := by
  have hsummary := summary_of_resolve hagrees h
  obtain ⟨_, order, rfl, hadds, hclear⟩ := clear_of_resolve hagrees h
  have horder := hclear.depthFirst
  have hfiles : r.imports.files.map (·.path) = order := by simpa using hadds.paths
  have hdocument : ∀ file ∈ r.imports.files, isAgentFile file.path.text = false →
      file ∈ r.imports.documents := by
    intro file hfile hagent
    obtain ⟨-, -, -, -, -, -, -, hisAgent⟩ := hsummary.loaded file hfile
    exact mem_filter.mpr ⟨hfile, by simp [hisAgent, hagent]⟩
  have hmem : entry.leadsTo tree importer ∈ order := by
    have hnext := mem_successors hasked.isLocal hasked.declared
    obtain hroot | himporter := hasked.imported
    · rw [hroot] at hnext ⊢
      simpa using horder.mem_of_mem_pending _ hnext
    · obtain ⟨document, hdocument, rfl⟩ := mem_map.mp himporter
      have : document.path ∈ order := hfiles ▸ mem_map_of_mem (mem_filter.mp hdocument).1
      simpa using horder.mem_of_mem_next _ this _ hnext
  obtain ⟨file, hfile, hpath⟩ := mem_map.mp (hfiles ▸ hmem)
  refine ⟨file, hdocument file hfile (hpath ▸ hagent), hpath, ?_, ?_, ?_⟩
  · intro other hother heq
    exact inj_on_of_nodup_map (hfiles ▸ horder.nodup) hother hfile heq
  · obtain ⟨stack, first, hfirst, hlocal, hleads⟩ := exists_request hagrees h file hfile
    refine ⟨first, ⟨or_iff_not_imp_left.mpr fun hroot => ?_, hfirst.declared, hlocal⟩, hleads⟩
    have hmem := (horder.mem_iff_transGen first).mpr
      ((Relation.reflTransGen_iff_eq_or_transGen.mp hfirst.reachable).resolve_left hroot)
    obtain ⟨document, hfound, rfl⟩ := mem_map.mp (hfiles ▸ hmem)
    refine mem_map_of_mem (hdocument document hfound ?_)
    by_contra hagent
    have hdeclared := hfirst.declared
    simp [declaredAt, hroot, hagent] at hdeclared
  · intro request hheading hinputs hblank
    exact hsummary.toRecorded.serves hfile hblank hheading hinputs

def twoSections : FileTree :=
  { nodes := [(["repo", "a.md"], .file (Utf8.encode "# One\nfirst\n# Two\nsecond\n"))]
    workdir := ofText "/repo" }

def bothSections : Entries := [(.str "imports", .list [.str "a.md#One", .str "a.md#Two"])]

theorem exists_resolve_twoSections :
    ∃ r, resolve twoSections .empty false (ofText "main.md") bothSections = .ok r ∧
      r.imports.inlined = "" ∧ r.imports.atRunTime = ["a.md#One"] ∧
      (∀ file ∈ r.imports.files, isAllBlank file.body = false) ∧
      Requests r.imports twoSections (ofText "/repo/main.md") bothSections
        (ofText "/repo/main.md") (Entry.ofText "a.md#Two" []) := by
  obtain ⟨r, hr, hinlined, hleft, hbodies⟩ : ∃ r,
      resolve twoSections .empty false (ofText "main.md") bothSections = .ok r ∧
      r.imports.inlined = "" ∧ r.imports.atRunTime = ["a.md#One"] ∧
      ∀ file ∈ r.imports.files, isAllBlank file.body = false := by decide +kernel
  refine ⟨r, hr, hinlined, hleft, hbodies, .inl rfl, ?_, by decide +kernel⟩
  have hentries : declaredIn bothSections = [.ofText "a.md#One" [], .ofText "a.md#Two" []] :=
    declaredIn_of_parseAll rfl
  rw [declaredAt_root, hentries]
  exact mem_cons_of_mem _ mem_cons_self

theorem request_served_one_section :
    ∃ r, resolve twoSections .empty false (ofText "main.md") bothSections = .ok r ∧
      ∃ file ∈ r.imports.documents, file.path = ofText "/repo/a.md" ∧
        Serves r.imports twoSections (ofText "/repo") file.path file.entry := by
  obtain ⟨r, hr, -, -, hblank, hasked⟩ := exists_resolve_twoSections
  obtain ⟨file, hfile, hpath, -, -, hserved⟩ := request_served twoSections .empty false
    (Path.ofText "main.md") bothSections (Cache.agrees_empty _) r hr _ _ hasked (by decide +kernel)
  exact ⟨r, hr, file, hfile, hpath, hserved _ rfl rfl (hblank file (mem_filter.mp hfile).1)⟩

/-- **The second of two sections of a document is dropped.** -/
theorem second_section_dropped :
    ∃ r, resolve twoSections .empty false (ofText "main.md") bothSections = .ok r ∧
      Requests r.imports twoSections (ofText "/repo/main.md") bothSections
        (ofText "/repo/main.md") (Entry.ofText "a.md#Two" []) ∧
      ¬Serves r.imports twoSections (ofText "/repo") (ofText "/repo/a.md")
        (Entry.ofText "a.md#Two" []) := by
  obtain ⟨r, hr, hinlined, hleft, -, hasked⟩ := exists_resolve_twoSections
  refine ⟨r, hr, hasked, ?_⟩
  rintro ⟨file, hpath, hentry, ⟨document, text, hdocument, htext, -, hbody, hshown, hagent⟩, hserved⟩
  rw [hpath] at hdocument hshown hagent
  rw [hentry] at htext hbody
  rw [hinlined, hleft] at hserved
  obtain hserved | hserved := hserved
  · obtain ⟨found, hfound, htest⟩ : ∃ document,
        documentAt twoSections (ofText "/repo/a.md") = .ok document ∧
        Markdown.section? document.body "Two" = some "# Two\nsecond\n" := by decide +kernel
    obtain rfl : document = found := Except.ok.inj (hdocument.symm.trans hfound)
    obtain rfl : text = "# Two\nsecond\n" := Option.some.inj (htext.symm.trans htest)
    rw [hbody] at hserved
    exact absurd hserved.length_le (by decide +kernel)
  · rw [File.reference, hagent, hshown, hentry] at hserved
    exact absurd hserved (by decide +kernel)

end Imports

end FlowLock
