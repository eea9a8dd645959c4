import FlowLock.Proofs.Import.Source
import FlowLock.Proofs.Json.Canonical
import FlowLock.Proofs.Workflow.Environments

/-!
# Lock files do not depend on the order of keys

The order of the settings of a document has no meaning, and neither has the order of
permissions, of environments and of the types of safe outputs.  A document in which it is
changed compiles to the same lock file, with the same digest.
-/

namespace FlowLock

open Outcome Workflow Document FileTree Path

/-! ## The digest -/

namespace Json

variable {depth : Nat}

theorem writtenAs_of_shuffled {v v' : Value} (h : v.Shuffled v') : WrittenAs depth v v' :=
  writtenAs_of_reordered (fun _ _ _ heq _ htext => heq ▸ htext) h

theorem writtenAs_of_sectionShuffled {v v' : Value} (h : v.SectionShuffled v') :
    WrittenAs depth v v' := by
  refine writtenAs_of_reordered (fun key v v' hv => ?_) h
  unfold Value.SectionEntry at hv
  split at hv
  · exact writtenAs_of_shuffled hv
  · exact fun _ htext => hv ▸ htext

theorem writtenAs_of_settingsShuffled {settings settings' : Entries}
    (h : SettingsShuffled settings settings') :
    WrittenAs depth (.map settings) (.map settings') := by
  refine writtenAs_of_reordered (fun key v v' hv => ?_) h
  unfold SettingsEntry at hv
  split at hv
  · exact writtenAs_of_shuffled hv
  · split at hv
    · exact writtenAs_of_sectionShuffled hv
    · exact fun _ htext => hv ▸ htext

end Json

theorem Imports.digest_of_shuffled {settings settings' : Entries}
    (h : SettingsShuffled settings settings') {imports : Imports} {body digest : String}
    (hdigest : Imports.digest settings (some imports) body = .ok digest) :
    Imports.digest settings' (some imports) body = .ok digest := by
  -- The payloads are objects that differ in the settings alone.
  have hpayload : (payload settings (some imports) body).Reordered (fun _ => Json.WrittenAs 1)
      (payload settings' (some imports) body) := by
    refine .obj (Table.Reordered.cons_same (fun _ _ _ htext => htext) ?_ ?_)
    · exact Json.writtenAs_of_settingsShuffled h
    · simp [Table.keys]
  unfold Imports.digest at hdigest ⊢
  cases htext : Json.encode? Json.canonical (payload settings (some imports) body) with
  | none =>
    rw [htext] at hdigest
    cases hdigest
  | some text =>
    have htext' : Json.encode? Json.canonical (payload settings' (some imports) body) = some text :=
      Json.writtenAs_of_reordered (fun _ _ _ hv => hv) hpayload text htext
    rwa [htext', ← htext]

/-! ## The lock file -/

namespace Compile

variable {tree tree' : FileTree} {request : Request} {source : Path} {document document' : Document}

theorem exists_node?_of_read (h : read tree source true = .ok document) :
    ∃ content, tree.node? (resolve tree.workdir source).names = some (.file content) := by
  obtain ⟨content, hread⟩ : ∃ content, tree.read source = .ok content := by
    unfold Document.read readText at h
    cases hread : tree.read source with
    | ok content => exact ⟨content, rfl⟩
    | error problem =>
      rw [hread] at h
      cases h
  unfold FileTree.read at hread
  cases hlocate : tree.locate source with
  | error problem =>
    rw [hlocate] at hread
    cases hread
  | ok location =>
    rw [hlocate] at hread
    rw [← locate_eq_ok hlocate]
    dsimp only [bind, Except.bind] at hread
    split at hread
    · next content hnode => exact ⟨content, hnode⟩
    · split at hread <;> cases hread

theorem lifts_workflowOf
    (htree : AgreeBut (resolve tree.workdir source).names tree tree')
    (h : read tree source true = .ok document)
    (h' : read tree' source true = .ok document') (hbody : document'.body = document.body)
    (hsettings : SettingsShuffled document.settings document'.settings) :
    Lifts Shuffled (workflowOf tree request source) (workflowOf tree' request source) := by
  unfold workflowOf
  rw [h, h', ok_bind, ok_bind, hbody, hsettings.getD_eq (by decide : "inlined-imports" ∉ _)]
  dsimp only
  rw [Imports.resolve_of_agreeBut htree (hsettings.getD_eq (by decide))]
  refine .bind_same _ fun resolution => ?_
  have hdigest : Lifts Eq
      (Imports.digest document.settings (some resolution.imports) document.body)
      (Imports.digest document'.settings (some resolution.imports) document.body) :=
    fun digest hdigest => ⟨digest, Imports.digest_of_shuffled hsettings hdigest, rfl⟩
  refine hdigest.bind ?_
  rintro digest _ rfl
  refine (lifts_build hsettings _ _ _ _ _).bind ?_
  rintro w _ ⟨own, running, processing, rfl, hown, hrunning, hprocessing⟩
  exact .bind_same _ fun mode => .ok ⟨own, running, processing, rfl, hown, hrunning, hprocessing⟩

theorem render_of_shuffled {result : Result}
    (htree : AgreeBut (resolve tree.workdir source).names tree tree')
    (h : read tree source true = .ok document)
    (h' : read tree' source true = .ok document') (hbody : document'.body = document.body)
    (hsettings : SettingsShuffled document.settings document'.settings)
    (hrender : render tree request source = .ok result) :
    render tree' request source = .ok result := by
  obtain ⟨w, engine, warnings, more, graph, hsource, hw, hengine, hwarnings, hjobs, hfinite, rfl⟩ :=
    render_eq_ok.mp hrender
  obtain ⟨_, hw', own, running, processing, rfl, hown, hrunning, hprocessing⟩ :=
    lifts_workflowOf htree h h' hbody hsettings w hw
  obtain ⟨⟨graph', _⟩, hjobs', hgraph, rfl⟩ :=
    lifts_withEnvironments engine (contextOf request w) hrunning hprocessing _ hjobs
  have hchecked : checked (contextOf request w) engine
      (w.withEnvironments own running processing) = .ok warnings := by
    rw [← hwarnings, checked, checked, check_withEnvironments]
  have hwritten : written
      ((w.withEnvironments own running processing).head graph'.permissions) graph'.jobs =
      written (w.head graph.permissions) graph.jobs := by
    rw [head_withEnvironments hown, written_of_alike hgraph,
      hgraph.permissions_eq Job.keepsOutline_writtenAlike]
  refine render_eq_ok.mpr ⟨_, engine, warnings, more, graph', hsource, hw', hengine, hchecked,
    hjobs', ?_, ?_⟩
  · rw [hwritten, hfinite]
  · rw [hwritten, headerOf, headerOf, htree.workdir_eq]
    rfl

/-- **Lock files do not depend on the order of keys.**

Take a document, and put another one in its place that has the same body and the same
settings but for the order of keys: of the settings themselves, of permissions and the
environment, and of the engine and the safe outputs with their environments.  The one
compiles exactly when the other does, and to the same result: the lock file, with the digest
in it, is the same text, and so are the warnings. -/
theorem render_ignores_order (tree : FileTree) (request : Request) (source : Path)
    (content : List UInt8) (document document' : Document)
    (h : read tree source true = .ok document)
    (h' : read (tree.put (resolve tree.workdir source).names content) source true =
      .ok document')
    (hbody : document'.body = document.body)
    (hsettings : SettingsShuffled document.settings document'.settings)
    (result : Result) :
    render tree request source = .ok result ↔
      render (tree.put (resolve tree.workdir source).names content) request source =
        .ok result := by
  obtain ⟨old, hold⟩ := exists_node?_of_read h
  have htree := agreeBut_put hold content
  exact ⟨render_of_shuffled htree h h' hbody hsettings,
    render_of_shuffled htree.symm h' h hbody.symm hsettings.symm⟩

def orderedTree : FileTree :=
  { nodes := [(["repo", "a.md"],
      .file (Utf8.encode "---\non: push\nenv: \x7bB: b, A: a\x7d\n---\nHi\n"))]
    workdir := ofText "/repo" }

/-- The same document with all its keys the other way round. -/
def reversedContent : List UInt8 :=
  Utf8.encode "---\nenv: \x7bA: a, B: b\x7d\non: push\n---\nHi\n"

def isOrdered : Entries → Bool
  | [(.str "on", .str "push"),
     (.str "env", .map [(.str "B", .str "b"), (.str "A", .str "a")])] => true
  | _ => false

def isReversed : Entries → Bool
  | [(.str "env", .map [(.str "A", .str "a"), (.str "B", .str "b")]),
     (.str "on", .str "push")] => true
  | _ => false

theorem settingsShuffled_reversed {es es' : Entries} (h : isOrdered es)
    (h' : isReversed es') : SettingsShuffled es es' := by
  have henv : (Value.obj [("B", .str "b"), ("A", .str "a")]).Shuffled
      (.obj [("A", .str "a"), ("B", .str "b")]) :=
    .obj (Table.Shuffled.of_perm (by simp [Table.keys]) (List.Perm.swap _ _ []))
  unfold isOrdered at h
  split at h
  · unfold isReversed at h'
    split at h'
    · exact .obj (Table.Reordered.of_perm (R := SettingsEntry)
        (t := [("on", _), ("env", _)]) (u := [("on", _), ("env", _)]) (by simp [Table.keys])
        (.cons ⟨Eq.refl "on", settingsEntry_refl _ _⟩
          (.cons ⟨Eq.refl "env", henv⟩ .nil)) (List.Perm.swap _ _ []))
    · cases h'
  · cases h

theorem render_ignores_order_reversed :
    ∃ document document' result,
      read orderedTree (.ofText "a.md") true = .ok document ∧
      read (orderedTree.put ["repo", "a.md"] reversedContent) (.ofText "a.md") true =
        .ok document' ∧
      document'.body = document.body ∧
      SettingsShuffled document.settings document'.settings ∧
      render orderedTree {} (.ofText "a.md") = .ok result ∧
      render (orderedTree.put ["repo", "a.md"] reversedContent) {} (.ofText "a.md") =
        .ok result := by
  have hlocation : (resolve orderedTree.workdir (.ofText "a.md")).names =
      ["repo", "a.md"] := by
    decide
  obtain ⟨document, hread, hordered, document', hread', hreversed, hbody⟩ :
      ∃ document, read orderedTree (.ofText "a.md") true = .ok document ∧
        isOrdered document.settings ∧
      ∃ document', read (orderedTree.put ["repo", "a.md"] reversedContent) (.ofText "a.md") true =
        .ok document' ∧ isReversed document'.settings ∧ document'.body = document.body := by
    decide +kernel
  have hsettings := settingsShuffled_reversed hordered hreversed
  obtain ⟨result, hresult⟩ : ∃ result, render orderedTree {} (.ofText "a.md") = .ok result := by
    decide +kernel
  have hiff := render_ignores_order orderedTree {} (.ofText "a.md") reversedContent document
    document' hread (hlocation ▸ hread') hbody hsettings result
  rw [hlocation] at hiff
  exact ⟨document, document', result, hread, hread', hbody, hsettings, hresult, hiff.mp hresult⟩

end Compile

end FlowLock
