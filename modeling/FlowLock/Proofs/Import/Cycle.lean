import FlowLock.Proofs.Import.Resolve
import FlowLock.Proofs.Permission

/-!
# Cycles among imports are told exactly

An import error names the documents on the way from the main document to the entry that it
is about.  `Blames` lists everything that such an error can tell of an entry, and `OnWay` the
ways on which documents import each other; an error of a visit always comes from one of the
former at the end of one of the latter.

A document met again is told as a cycle only when it is on the way.  No cycle hides behind a
document that was met before and is not on the way, since all that is below such a document
was visited without leading back (`ClearVisit.acyclic`).  So where nothing else is wrong with
the imports, which `Resolvable` spells out, there is a cycle just when one is told.
-/

namespace FlowLock

open List Permissions Relation Entries Document Bool

/-! ## Errors that tell of no import -/

def Outcome.Unchained {α : Type} (x : Outcome α) : Prop :=
  ∀ chain fault, x ≠ .error (.imports chain fault)

namespace Outcome.Unchained

variable {α β : Type} {x : Outcome α} {f : α → Outcome β}

theorem ok (a : α) : Unchained (.ok a : Outcome α) := by
  rintro chain fault ⟨⟩

theorem bind (hx : x.Unchained) (hf : ∀ a, (f a).Unchained) : (x >>= f).Unchained := by
  intro chain fault h
  obtain h | ⟨a, -, h⟩ := bind_eq_error.mp h
  · exact hx chain fault h
  · exact hf a chain fault h

theorem mapM (hf : ∀ a, (f a).Unchained) (xs : List α) : (xs.mapM f).Unchained := by
  induction xs with
  | nil => exact .ok []
  | cons x xs ih =>
    rw [mapM_cons]
    exact .bind (hf x) fun y => .bind ih fun ys => .ok _

theorem foldlM {g : β → α → Outcome β} (hg : ∀ b a, (g b a).Unchained) (xs : List α) (b : β) :
    (xs.foldlM g b).Unchained := by
  induction xs generalizing b with
  | nil => exact .ok b
  | cons x xs ih =>
    rw [foldlM_cons]
    exact .bind (hg b x) ih

end Outcome.Unchained

open Outcome (Unchained)

theorem Document.unchained_split (name : Option String) (required : Bool) (content : String) :
    (split name required content).Unchained := by
  have hsettings : ∀ block line, (settingsOf name block line).Unchained := by
    intro block line chain fault
    unfold settingsOf
    dsimp only
    split
    · simp
    · split
      · simp
      · simp
      · split <;> simp
  unfold split
  intro chain fault
  dsimp only
  split
  · split <;> simp
  · split
    · split <;> simp
    · split
      · simp
      · exact Unchained.bind (hsettings _ _) (fun _ => .ok _) chain fault

theorem Permissions.unchained_parse (v : Value) : (parse v).Unchained := by
  have hentry : ∀ p e, (addEntry p e).Unchained := by
    intro p e
    unfold addEntry
    split
    · refine .bind ?_ fun level => .bind ?_ fun scope => .ok _
      · intro chain fault
        unfold readLevel
        split <;> simp
      · intro chain fault
        unfold readScope
        split <;> simp
    · rintro chain fault ⟨⟩
  unfold parse
  split
  · exact .ok _
  · exact .ok _
  · exact .ok _
  · rintro chain fault ⟨⟩
  · exact .foldlM hentry _ _
  · rintro chain fault ⟨⟩

theorem Import.Entry.unchained_parseAll (v : Value) : (Import.Entry.parseAll v).Unchained := by
  have hparse : ∀ v, (Import.Entry.parse v).Unchained := by
    intro v chain fault
    unfold Import.Entry.parse
    split
    · simp
    · split
      · simp [Import.Entry.refusal]
      · split <;> simp [Import.Entry.refusal]
      · simp [Import.Entry.refusal]
    · simp [Import.Entry.refusal]
  unfold Import.Entry.parseAll
  split
  · exact .ok _
  · exact .mapM hparse _
  · rintro chain fault ⟨⟩

namespace Import

/-- The path that an entry of a document spells, seen from the directory of the document. -/
def Entry.spelled (entry : Entry) (importer : Path) : Path :=
  importer.parent.join (Path.ofText entry.path)

theorem Cache.unchained_read (cache : Cache) (tree : FileTree) (path : Path) :
    (cache.read tree path).1.Unchained := by
  intro chain fault
  unfold Cache.read
  dsimp only
  split
  · next problem _ => cases problem <;> simp [Error.ofFile]
  · split
    · simp
    · split
      · simp
      · next hparse =>
        have hunchained : ∀ path content, (Cache.parse path content).Unchained :=
          fun _ _ => .bind (unchained_split _ _ _) fun _ => .ok _
        exact hparse ▸ hunchained _ _ chain fault

end Import

theorem FileTree.unchained_isFile (tree : FileTree) (path : Path) :
    (tree.isFile path).Unchained := by
  refine .bind ?_ fun _ => .ok _
  intro chain fault
  unfold FileTree.kindOf
  split <;> simp

namespace Imports

open Import Outcome

variable {tree : FileTree} {base importer path root : Path} {inlining : Bool} {stack : List Path}
  {entry : Entry} {v v' : Visit} {settings : Entries} {chain : List String} {fault : ImportFault}
  {cache : Cache}

/-! ## What an import error tells -/

/-- Everything that an import error can tell of an entry.  `stack` leads to the document of
the entry. -/
inductive Blames (tree : FileTree) (importer : Path) (stack : List Path) (entry : Entry) :
    List String → ImportFault → Prop
  | notFound : Blames tree importer stack entry
      (stack.map (·.text) ++ [(entry.spelled importer).text])
      (.notFound entry.shown (entry.spelled importer).text (stack.map (·.text)))
  | noSection (heading : String) : Blames tree importer stack entry
      (stack.map (·.text) ++ [(entry.leadsTo tree importer).text])
      (.noSection heading (entry.leadsTo tree importer).text)
  | agentInlined (shown : String) : Blames tree importer stack entry
      (stack.map (·.text) ++ [(entry.leadsTo tree importer).text]) (.agentInlined shown)
  | cycle (hmem : entry.leadsTo tree importer ∈ stack) : Blames tree importer stack entry
        (stack.map (·.text) ++ [(entry.leadsTo tree importer).text])
        (.cycle (((stack.dropWhile (· != entry.leadsTo tree importer)) ++
          [entry.leadsTo tree importer]).map (·.name)))

theorem blames_of_target (h : target tree importer stack entry = .error (.imports chain fault)) :
    Blames tree importer stack entry chain fault := by
  unfold target at h
  split at h
  · cases h
  · obtain h | ⟨found, -, h⟩ := bind_eq_error.mp h
    · exact absurd h (FileTree.unchained_isFile tree _ chain fault)
    · split at h
      · cases h
      · cases h
        exact .notFound

theorem blames_of_loadFile (hpath : path = entry.leadsTo tree importer)
    (h : loadFile tree base stack cache path entry = .error (.imports chain fault)) :
    Blames tree importer stack entry chain fault := by
  obtain h | ⟨cached, -, h⟩ := bind_eq_error.mp h
  · exact absurd h (cache.unchained_read tree path chain fault)
  · obtain h | ⟨text, -, h⟩ := bind_eq_error.mp h
    · unfold importedText at h
      split at h
      · cases h
      · split at h
        · cases h
        · cases h
          subst hpath
          exact .noSection _
    · cases h

theorem blames_of_addAgent {i : Imports} {file : File}
    (hpath : file.path = entry.leadsTo tree importer)
    (h : i.addAgent inlining stack file = .error (.imports chain fault)) :
    Blames tree importer stack entry chain fault := by
  unfold addAgent at h
  split at h
  · cases h
    rw [hpath]
    exact .agentInlined _
  · split at h
    · cases h
    · split at h <;> cases h

theorem unchained_addDocument (i : Imports) (inlining : Bool) (file : File) :
    (i.addDocument inlining file).Unchained := by
  have hdeclare : (i.declare file.settings).Unchained := by
    refine .bind ?_ fun _ => .ok _
    unfold joinPermissions
    split
    · exact .ok _
    · exact .bind (unchained_parse _) fun _ =>
        .bind (unchained_parse _) fun _ => .ok _
  refine .bind hdeclare fun declared => ?_
  split <;> exact .ok _

theorem blames_of_move
    (h : move tree base inlining importer stack v entry = .error (.imports chain fault)) :
    entry.isLocal ∧ Blames tree importer stack entry chain fault := by
  unfold move at h
  split at h
  · cases h
  · next helsewhere =>
    refine ⟨isLocal_of_visitElsewhere? helsewhere, ?_⟩
    obtain h | ⟨path, htarget, h⟩ := bind_eq_error.mp h
    · exact blames_of_target h
    have hpath := (target_eq_ok htarget).1
    split at h
    · next hstack =>
      cases h
      subst hpath
      have hcycle : Blames tree importer stack entry _ _ := .cycle (by simpa using hstack)
      simpa only [map_append, map_cons, map_nil] using hcycle
    split at h
    · cases h
    obtain h | ⟨⟨file, cache⟩, hload, h⟩ := bind_eq_error.mp h
    · exact blames_of_loadFile hpath h
    dsimp only at h
    split at h
    · obtain h | ⟨imports, -, h⟩ := bind_eq_error.mp h
      · have hresolved : Path.resolve tree.workdir path = path := by
          rw [hpath]
          exact Path.resolve_resolve ..
        obtain ⟨cached, text, -, -, rfl⟩ := loaded_of_loadFile hresolved hload
        exact blames_of_addAgent hpath h
      · cases h
    · exact absurd h (Unchained.bind (unchained_addDocument _ _ _) (fun _ =>
        .bind (Entry.unchained_parseAll _) fun _ => .ok _) chain fault)

/-! ## The way to an entry -/

/-- An import error tells of a local entry of a document, and of the documents on the way. -/
def Told (tree : FileTree) (root : Path) (settings : Entries) (chain : List String)
    (fault : ImportFault) : Prop :=
  ∃ stack importer entry, OnWay tree root settings stack importer ∧
    entry ∈ declaredAt tree root settings importer ∧ entry.isLocal = true ∧
    Blames tree importer stack entry chain fault

/-! ## Imports that can be resolved -/

@[mk_iff]
structure Leads (tree : FileTree) (root importer : Path) (entry : Entry) : Prop where
  noLock : Text.endsWith (Text.lower entry.path) ".lock.yml" = false
  isFile : tree.isFile (entry.spelled importer) = .ok true
  document : entry.leadsTo tree importer ≠ root →
    ∃ document, documentAt tree (entry.leadsTo tree importer) = .ok document ∧
      (∀ heading, entry.heading = some heading → (Markdown.section? document.body heading).isSome) ∧
      (isAgentFile (entry.leadsTo tree importer).text = false →
        (∃ entries, Entry.parseAll (getD document.settings "imports") = .ok entries) ∧
        ∃ p, parse (getD document.settings "permissions") = .ok p)

/-- Nothing but a cycle can keep the imports of a main document from being resolved: import
lists are well-formed, local entries lead to files that can be imported, and at most one of
these is an agent file, none when imports are inlined. -/
structure Resolvable (tree : FileTree) (root : Path) (settings : Entries) (inlining : Bool) :
    Prop where
  entries : ∃ entries, Entry.parseAll (getD settings "imports") = .ok entries
  leads : ∀ importer, ReflTransGen (Edge tree root settings) root importer →
    ∀ entry ∈ declaredAt tree root settings importer, entry.isLocal = true →
      Leads tree root importer entry
  oneAgent : ∀ p q, p ≠ root → q ≠ root → TransGen (Edge tree root settings) root p →
    TransGen (Edge tree root settings) root q →
    isAgentFile p.text = true → isAgentFile q.text = true → p = q
  noAgent : inlining = true → ∀ p, p ≠ root → TransGen (Edge tree root settings) root p →
    isAgentFile p.text = false

instance (tree : FileTree) (root importer : Path) (entry : Entry) :
    Decidable (Leads tree root importer entry) :=
  have (P : String → Prop) [DecidablePred P] : Decidable (∀ h, entry.heading = some h → P h) :=
    inferInstanceAs (Decidable (∀ h ∈ entry.heading, P h))
  decidable_of_iff' _ (leads_iff ..)

/-- Files that import each other alone, and can be imported, can be resolved. -/
theorem resolvable_of_closed (files : List Path) (hroot : root ∈ files)
    (hclosed : ∀ p ∈ files, ∀ q ∈ successors tree root settings p, q ∈ files)
    (hentries : ∃ entries, Entry.parseAll (getD settings "imports") = .ok entries)
    (hleads : ∀ p ∈ files, ∀ entry ∈ declaredAt tree root settings p, entry.isLocal →
      Leads tree root p entry)
    (hagent : ∀ p ∈ files, isAgentFile p.text = false) :
    Resolvable tree root settings inlining := by
  have hmem : ∀ {p}, ReflTransGen (Edge tree root settings) root p → p ∈ files :=
    mem_of_reachable hroot hclosed
  exact
    { entries := hentries
      leads := fun p hp => hleads p (hmem hp)
      oneAgent := by
        intro p q _ _ hp _ hisAgent
        simp [hagent p (hmem hp.to_reflTransGen)] at hisAgent
      noAgent := fun _ p _ hp => hagent p (hmem hp.to_reflTransGen) }

/-- What stays true on the visit of imports that can be resolved. -/
structure Sound (tree : FileTree) (root : Path) (settings : Entries) (v : Visit) : Prop where
  agrees : v.cache.Agrees tree
  visited : ∀ p ∈ v.visited, p ≠ root ∧ TransGen (Edge tree root settings) root p
  agent : v.imports.agentFile ≠ none → ∃ p ∈ v.visited, isAgentFile p.text = true
  permissions : ∃ p : Permissions, p.IsOrdered ∧ v.imports.permissions = p.entries

theorem exists_loadFile {document : Document} (base : Path) (stack : List Path)
    (hagrees : cache.Agrees tree) (hpath : Path.resolve tree.workdir path = path)
    (hdocument : documentAt tree path = .ok document)
    (hsection : ∀ heading, entry.heading = some heading →
      (Markdown.section? document.body heading).isSome) :
    ∃ file after, loadFile tree base stack cache path entry = .ok (file, after) ∧
      file.settings = document.settings ∧ file.isAgent = isAgentFile path.text ∧
      file.isInlined = false := by
  have hread : ∃ cached after, cache.read tree path = (.ok cached, after) ∧
      cached.document = document := by
    unfold documentAt at hdocument
    split at hdocument
    · cases hdocument
    · next content htext =>
      unfold Cache.read
      simp only [hpath, htext]
      split
      · next kept hkept =>
        obtain ⟨hget, hdigest⟩ := Option.filter_eq_some_iff.mp hkept
        have hkept := hagrees path kept content hget htext (by simpa using hdigest)
        exact ⟨kept, _, rfl, Except.ok.inj (hkept.symm.trans hdocument)⟩
      · rw [Cache.parse, hdocument]
        exact ⟨_, _, rfl, rfl⟩
  obtain ⟨cached, after, hread, rfl⟩ := hread
  have htext : ∃ text, importedText stack path cached.document.body entry = .ok text := by
    unfold importedText
    split
    · exact ⟨_, rfl⟩
    · next heading hheading =>
      obtain ⟨text, htext⟩ := Option.isSome_iff_exists.mp (hsection heading hheading)
      exact ⟨text, by rw [htext]⟩
  obtain ⟨text, htext⟩ := htext
  unfold loadFile
  simp only [hread, ok_bind, htext]
  refine ⟨_, _, rfl, ?_, ?_, ?_⟩ <;> dsimp only

theorem exists_joinPermissions {p : Permissions} {v : Value} (hp : p.IsOrdered)
    (hv : ∃ q, parse v = .ok q) :
    ∃ q : Permissions, q.IsOrdered ∧ joinPermissions p.entries v = .ok q.entries := by
  unfold joinPermissions
  split
  · exact ⟨p, hp, rfl⟩
  · obtain ⟨q, hq⟩ := hv
    rw [parse_entries hp, hq]
    exact ⟨p.join q, isOrdered_ofFun _, rfl⟩

theorem isOrdered_of_joinPermissions {p : Permissions} {v : Value} {entries : Entries}
    (hp : p.IsOrdered) (h : joinPermissions p.entries v = .ok entries) :
    ∃ q : Permissions, q.IsOrdered ∧ entries = q.entries := by
  unfold joinPermissions at h
  split at h
  · cases h
    exact ⟨p, hp, rfl⟩
  · obtain ⟨before, -, h⟩ := bind_eq_ok.mp h
    obtain ⟨more, -, h⟩ := bind_eq_ok.mp h
    cases h
    exact ⟨_, isOrdered_ofFun _, rfl⟩

theorem Entered.sound {file : File} {imports : Imports}
    (h : Entered tree base importer stack v entry path file cache)
    (hasked : Asked tree root settings importer stack entry) (hsound : Sound tree root settings v)
    (hagent : imports.agentFile ≠ v.imports.agentFile → isAgentFile path.text)
    (hpermissions : ∃ p : Permissions, p.IsOrdered ∧ imports.permissions = p.entries) :
    Sound tree root settings { cache, visited := v.visited ++ [path], imports } := by
  have hedge : Edge tree root settings importer path := h.path_eq ▸ hasked.edge h.isLocal
  refine ⟨h.agrees hsound.agrees, ?_, ?_, hpermissions⟩
  · intro p hp
    rcases mem_append.mp hp with hp | hp
    · exact hsound.visited p hp
    · rw [mem_singleton.mp hp]
      exact ⟨fun heq => h.not_mem_stack (heq ▸ hasked.way.root_mem), .tail' hasked.reachable hedge⟩
  · intro hsome
    by_cases heq : imports.agentFile = v.imports.agentFile
    · obtain ⟨p, hp, hisAgent⟩ := hsound.agent (heq ▸ hsome)
      exact ⟨p, mem_append_left _ hp, hisAgent⟩
    · exact ⟨path, mem_append_right _ (mem_singleton_self path), hagent heq⟩

theorem Moved.sound {m : Move} (h : Moved tree base inlining importer stack v entry m)
    (hasked : Asked tree root settings importer stack entry) (hsound : Sound tree root settings v) :
    Sound tree root settings m.after := by
  obtain ⟨p, hp, hpermissions⟩ := hsound.permissions
  cases h with
  | elsewhere h =>
    obtain ⟨-, ⟨repositories, rfl⟩ | rfl⟩ := visitElsewhere?_eq_some h
    all_goals exact { hsound with }
  | again _ _ _ _ => exact hsound
  | agent hentered hagent hadd =>
    obtain ⟨cached, -, -, -, hisAgent⟩ := hentered.readAs
    obtain ⟨-, -, rfl⟩ := (addAgent_eq_ok hagent hentered.isInlined_eq).mp hadd
    exact hentered.sound hasked hsound (fun _ => hisAgent ▸ hagent) ⟨p, hp, hpermissions⟩
  | document hentered hagent hadd hnested =>
    obtain ⟨permissions, hjoin, rfl⟩ := (addDocument_eq_ok hagent hentered.isInlined_eq).mp hadd
    refine hentered.sound hasked hsound (fun hne => absurd rfl hne) ?_
    rw [hpermissions] at hjoin
    exact isOrdered_of_joinPermissions hp hjoin

/-- Where imports can be resolved, an entry that ends the visit leads back to a document on
the way. -/
theorem move_of_resolvable (hresolvable : Resolvable tree root settings inlining)
    (hasked : Asked tree root settings importer stack entry) (hsound : Sound tree root settings v) :
    (∃ m, move tree base inlining importer stack v entry = .ok m) ∨
      move tree base inlining importer stack v entry =
        .error (cycle stack (entry.leadsTo tree importer)) := by
  unfold move
  split
  · exact .inl ⟨_, rfl⟩
  next helsewhere =>
  have hlocal := isLocal_of_visitElsewhere? helsewhere
  have hleads := hresolvable.leads importer hasked.reachable entry hasked.declared hlocal
  set path := entry.leadsTo tree importer with hpath
  have htarget : target tree importer stack entry = .ok path := by
    have hfile := hleads.isFile
    unfold Entry.spelled at hfile
    simp [target, hleads.noLock, hfile, hpath, Entry.leadsTo]
  rw [htarget, ok_bind]
  by_cases hstack : path ∈ stack
  · rw [if_pos (by simpa using hstack)]
    exact .inr rfl
  rw [if_neg (by simpa using hstack)]
  left
  by_cases hvisited : path ∈ v.visited
  · rw [if_pos (by simpa using hvisited)]
    exact ⟨_, rfl⟩
  rw [if_neg (by simpa using hvisited)]
  have hother : path ≠ root := fun heq => hstack (heq ▸ hasked.way.root_mem)
  have hresolved : Path.resolve tree.workdir path = path := Path.resolve_resolve ..
  have htrans : TransGen (Edge tree root settings) root path :=
    .tail' hasked.reachable (hasked.edge hlocal)
  obtain ⟨document, hdocument, hsection, hlists⟩ := hleads.document hother
  obtain ⟨file, cache, hload, hsettings, hisAgent, hinlined⟩ :=
    exists_loadFile base stack hsound.agrees hresolved hdocument hsection
  simp only [hload, ok_bind]
  split
  · next hagent =>
    have hnone : v.imports.agentFile = none := by
      by_contra hsome
      obtain ⟨p, hp, hpAgent⟩ := hsound.agent hsome
      obtain ⟨hpOther, hpReach⟩ := hsound.visited p hp
      have heq := hresolvable.oneAgent p path hpOther hother hpReach htrans hpAgent
        (hisAgent ▸ hagent)
      exact hvisited (heq ▸ hp)
    have hinlining : inlining = false := by
      by_contra hinlining
      have hnoAgent := hresolvable.noAgent (by simpa using hinlining) path hother htrans
      rw [hisAgent, hnoAgent] at hagent
      cases hagent
    rw [(addAgent_eq_ok hagent hinlined).mpr ⟨hinlining, hnone, rfl⟩]
    exact ⟨_, rfl⟩
  · next hagent =>
    have hagent : file.isAgent = false := (not_eq_true _).mp hagent
    obtain ⟨⟨entries, hentries⟩, hparse⟩ := hlists (hisAgent ▸ hagent)
    obtain ⟨p, hp, hpermissions⟩ := hsound.permissions
    obtain ⟨q, -, hjoin⟩ := exists_joinPermissions hp hparse
    rw [← hpermissions, ← hsettings] at hjoin
    rw [(addDocument_eq_ok hagent hinlined).mpr ⟨_, hjoin, rfl⟩, ok_bind, hsettings, hentries]
    exact ⟨_, rfl⟩

/-! ## Cycles -/

/-- Documents that import each other in a circle are reachable from the main document. -/
def HasCycle (tree : FileTree) (root : Path) (settings : Entries) : Prop :=
  ∃ p, ReflTransGen (Edge tree root settings) root p ∧
    TransGen (Edge tree root settings) p p

theorem Told.cycle {names : List String} (h : Told tree root settings chain (.cycle names)) :
    HasCycle tree root settings ∧ ∃ last ∈ chain.dropLast, chain.getLast? = some last := by
  obtain ⟨stack, importer, entry, hway, hentry, hlocal, hblames⟩ := h
  cases hblames with
  | cycle hmem =>
    obtain ⟨hreach, hback⟩ := hway.reachable hmem
    refine ⟨⟨_, hreach, .tail' hback (mem_successors hlocal hentry)⟩, _, ?_, getLast?_concat ..⟩
    rw [dropLast_concat]
    exact mem_map_of_mem hmem

theorem Told.head?_eq (h : Told tree root settings chain fault) : chain.head? = some root.text := by
  obtain ⟨stack, importer, entry, hway, -, -, hblames⟩ := h
  have hhead : ∀ last : String, (stack.map (·.text) ++ [last]).head? = some root.text := by
    intro last
    rw [head?_append, head?_map, hway.head?_eq]
    rfl
  cases hblames <;> exact hhead _

section Resolve

variable {cache : Cache} {source : Path}

/-- **An import error tells the way to its entry.** -/
theorem told_of_resolve (hagrees : cache.Agrees tree)
    (h : resolve tree cache inlining source settings = .error (.imports chain fault)) :
    Told tree (Path.resolve tree.workdir source) settings chain fault := by
  refine resolve_rule (P := fun _ => True) (Q := fun e => ∀ chain fault, e = .imports chain fault →
      Told tree (Path.resolve tree.workdir source) settings chain fault)
    rfl hagrees h ?_ ?_ (fun _ _ _ _ => trivial) trivial chain fault rfl
  · rintro _ hparse chain fault rfl
    exact absurd hparse (Entry.unchained_parseAll _ chain fault)
  · rintro importer stack v entry _ hasked - - hmove chain fault rfl
    obtain ⟨hlocal, hblames⟩ := blames_of_move hmove
    exact ⟨stack, importer, entry, hasked.way, hasked.declared, hlocal, hblames⟩

theorem resolve_of_resolvable (hagrees : cache.Agrees tree)
    (h : Resolvable tree (Path.resolve tree.workdir source) settings inlining) :
    (∃ r, resolve tree cache inlining source settings = .ok r) ∨ ∃ chain names,
        resolve tree cache inlining source settings = .error (.imports chain (.cycle names)) := by
  cases hresolve : resolve tree cache inlining source settings with
  | ok r => exact .inl ⟨r, rfl⟩
  | error e =>
    refine .inr ?_
    have hcycle := resolve_rule (P := Sound tree _ settings)
      (Q := fun e => ∃ chain names, e = .imports chain (.cycle names)) rfl hagrees hresolve
      (fun e hparse => ?_) (fun hasked _ hsound hmove => ?_)
      (fun hasked _ hsound hmoved => hmoved.sound hasked hsound)
      { agrees := agrees_workingCache hagrees
        visited := by rintro p ⟨⟩
        agent := fun h => absurd rfl h
        permissions := ⟨.empty, isOrdered_empty, rfl⟩ }
    · obtain ⟨chain, names, rfl⟩ := hcycle
      exact ⟨chain, names, rfl⟩
    · obtain ⟨entries, hentries⟩ := h.entries
      cases hentries.symm.trans hparse
    · obtain ⟨m, hok⟩ | hcycle := move_of_resolvable h hasked hsound
      · cases hok.symm.trans hmove
      · cases hcycle.symm.trans hmove
        exact ⟨_, _, rfl⟩

theorem not_hasCycle_of_resolve {r : Resolution} (hagrees : cache.Agrees tree)
    (h : resolve tree cache inlining source settings = .ok r) :
    ¬HasCycle tree (Path.resolve tree.workdir source) settings := by
  rintro ⟨p, hreach, hcycle⟩
  obtain ⟨root, order, rfl, -, hclear⟩ := clear_of_resolve hagrees h
  exact hclear.acyclic hreach hcycle

/-- **A cycle is told exactly where there is one, with the way that closes it.**

Where nothing else keeps the imports of a document from being resolved, resolving ends with
the error for a cycle when there is one among what is reachable, and succeeds when there is
none.  Whatever an import error of any document is about, its chain starts with that document,
goes on from each document to one that it imports, and ends with what a local entry of the
last of them names; the chain of a cycle ends with a document that it went through before. -/
theorem resolve_tells_cycles (tree : FileTree) (cache : Cache) (inlining : Bool) (source : Path)
    (settings : Entries) (hagrees : cache.Agrees tree) :
    let root := Path.resolve tree.workdir source
    (Resolvable tree root settings inlining →
      ((∃ chain names,
          resolve tree cache inlining source settings = .error (.imports chain (.cycle names))) ↔
        HasCycle tree root settings) ∧
      ((∃ r, resolve tree cache inlining source settings = .ok r) ↔
        ¬HasCycle tree root settings)) ∧
    ∀ chain fault,
      resolve tree cache inlining source settings = .error (.imports chain fault) →
      Told tree root settings chain fault ∧ chain.head? = some root.text ∧
        ∀ names, fault = .cycle names → ∃ last ∈ chain.dropLast, chain.getLast? = some last := by
  intro root
  refine ⟨fun hresolvable => ?_, ?_⟩
  · have hclear : ∀ {r}, resolve tree cache inlining source settings = .ok r →
        ¬HasCycle tree root settings := not_hasCycle_of_resolve hagrees
    have htold : ∀ {chain names},
        resolve tree cache inlining source settings = .error (.imports chain (.cycle names)) →
        HasCycle tree root settings := fun h => (told_of_resolve hagrees h).cycle.1
    rcases resolve_of_resolvable hagrees hresolvable with ⟨r, hr⟩ | ⟨chain, names, hcycle⟩
    · refine ⟨⟨?_, fun h => absurd h (hclear hr)⟩, fun _ => hclear hr, fun _ => ⟨r, hr⟩⟩
      rintro ⟨chain, names, h⟩
      exact htold h
    · refine ⟨⟨fun _ => htold hcycle, fun _ => ⟨chain, names, hcycle⟩⟩, ?_, ?_⟩
      · rintro ⟨r, hr⟩
        exact hclear hr
      · intro hnone
        exact absurd (htold hcycle) hnone
  · intro chain fault h
    have htold := told_of_resolve hagrees h
    refine ⟨htold, htold.head?_eq, ?_⟩
    rintro names rfl
    exact htold.cycle.2

/-- A cycle among two imports, met by the main document through a third. -/
theorem resolve_tells_cycles_among_two :
    let tree : FileTree :=
      { nodes :=
          [(["repo", "a.md"], .file (Utf8.encode "---\nimports: [b.md]\n---\n")),
           (["repo", "b.md"], .file (Utf8.encode "---\nimports: [c.md]\n---\n")),
           (["repo", "c.md"], .file (Utf8.encode "---\nimports: [b.md]\n---\n"))]
        workdir := Path.ofText "/repo" }
    let source := Path.ofText "main.md"
    let root := Path.resolve tree.workdir source
    let settings : Entries := [(.str "imports", .list [.str "a.md"])]
    Cache.empty.Agrees tree ∧ Resolvable tree root settings false ∧ HasCycle tree root settings ∧
      ∃ chain names,
        resolve tree .empty false source settings = .error (.imports chain (.cycle names)) ∧
        chain.head? = some "/repo/main.md" := by
  intro tree source root settings
  have hagrees := Cache.agrees_empty tree
  have hresolvable : Resolvable tree root settings false := by
    refine resolvable_of_closed (root :: ["/repo/a.md", "/repo/b.md", "/repo/c.md"].map Path.ofText)
      ?_ ?_ ?_ ?_ ?_
    all_goals decide +kernel
  have hcycle : HasCycle tree root settings := by
    refine ⟨.ofText "/repo/b.md", .tail (b := .ofText "/repo/a.md") (.single ?_) ?_,
      .tail (b := .ofText "/repo/c.md") (.single ?_) ?_⟩
    all_goals decide +kernel
  obtain ⟨hexact, htold⟩ := resolve_tells_cycles tree .empty false source settings hagrees
  obtain ⟨chain, names, hr⟩ := (hexact hresolvable).1.mpr hcycle
  exact ⟨hagrees, hresolvable, hcycle, chain, names, hr, (htold chain _ hr).2.1⟩

end Resolve

end Imports

end FlowLock
