import FlowLock.Proofs.Import.Resolve

/-!
# Imports read what they lead to

A visit reads the documents that it reaches and nothing else of the tree: another content of a
file that it does not reach is not noticed.  The main document is on the way to every document
that is visited, so an entry that leads to it is refused before it is read, and what is resolved
depends on its import list alone.
-/

namespace FlowLock

open Outcome Entries

namespace FileTree

/-- Two trees that differ in the content of the file at a location and in nothing else. -/
structure AgreeBut (location : Location) (tree tree' : FileTree) : Prop where
  workdir_eq : tree'.workdir = tree.workdir
  kindAt_eq : ∀ other, tree'.kindAt other = tree.kindAt other
  node?_eq : ∀ other, other ≠ location → tree'.node? other = tree.node? other

variable {location : Location} {tree tree' : FileTree} {path : Path}

theorem mem_nodes_of_node? {node : FileNode} (h : tree.node? location = some node) :
    (location, node) ∈ tree.nodes := by
  obtain ⟨e, he, rfl⟩ := Option.map_eq_some_iff.mp h
  obtain rfl : e.1 = location := by simpa using List.find?_some he
  exact List.mem_of_find?_eq_some he

theorem agreeBut_put {old : List UInt8} (h : tree.node? location = some (.file old))
    (content : List UInt8) : AgreeBut location tree (tree.put location content) where
  workdir_eq := rfl
  kindAt_eq other := by
    unfold kindAt
    rw [node?_put]
    by_cases hother : location = other
    · rw [if_pos hother, ← hother, h]
    · rw [if_neg hother]
      -- The file was listed before, so it leads through the same directories.
      have hany : (tree.put location content).nodes.any (fun e => other.isPrefixOf e.1) =
          tree.nodes.any fun e => other.isPrefixOf e.1 := by
        rw [put, any_putNode, Bool.or_eq_right_iff_imp]
        exact fun hp => List.any_eq_true.mpr ⟨_, mem_nodes_of_node? h, hp⟩
      rw [hany]
      rfl
  node?_eq other hne := by rw [node?_put, if_neg hne.symm]

theorem AgreeBut.symm (h : AgreeBut location tree tree') : AgreeBut location tree' tree where
  workdir_eq := h.workdir_eq.symm
  kindAt_eq other := (h.kindAt_eq other).symm
  node?_eq other hne := (h.node?_eq other hne).symm

theorem AgreeBut.agreeOff (h : AgreeBut location tree tree') :
    AgreeOff (· = location) tree tree' where
  workdir_eq := h.workdir_eq
  directory_iff other := by rw [h.kindAt_eq]
  node?_eq := h.node?_eq

end FileTree

namespace Imports

open Import

variable {apart : Location → Prop} {tree tree' : FileTree} {base importer path root source : Path}
  {inlining : Bool} {stack : List Path} {entry : Entry} {settings settings' : Entries} {v : Visit}

theorem loadFile_of_agreeOff (h : tree.AgreeOff apart tree')
    (htarget : target tree importer stack entry = .ok path) (hpath : ¬apart path.names)
    (cache : Cache) :
    loadFile tree' base stack cache path entry = loadFile tree base stack cache path entry := by
  obtain ⟨rfl, hfile, -⟩ := target_eq_ok htarget
  obtain ⟨location, hfound, -⟩ := FileTree.exists_locate_of_isFile hfile
  obtain rfl := FileTree.locate_eq_ok hfound
  have hlocate : tree'.locate (entry.leadsTo tree importer) =
      tree.locate (entry.leadsTo tree importer) :=
    h.locate_eq (fun name hname => (Path.mem_collapse hname).2)
      fun p hp hne => FileTree.directory_of_locate hfound hp (.inl hne)
  have hresolve : Path.resolve tree.workdir (entry.leadsTo tree importer) =
      entry.leadsTo tree importer := Path.resolve_resolve ..
  have hread : cache.read tree' (entry.leadsTo tree importer) =
      cache.read tree (entry.leadsTo tree importer) := by
    rw [Cache.read, Cache.read, h.workdir_eq, hresolve, h.readText_eq hlocate (by rwa [hresolve])]
  rw [loadFile, loadFile, hread, h.workdir_eq]

/-- An entry is followed in the same way when it leads to no location that is set apart, or to a
document on the way, which is not read again. -/
theorem move_of_agreeOff (h : tree.AgreeOff apart tree')
    (hentry : entry.isLocal → ¬apart (entry.leadsTo tree importer).names ∨
      entry.leadsTo tree importer ∈ stack ∧ tree'.kindAt (entry.leadsTo tree importer).names =
          tree.kindAt (entry.leadsTo tree importer).names) (v : Visit) :
    move tree' base inlining importer stack v entry =
      move tree base inlining importer stack v entry := by
  unfold move
  split
  · rfl
  · next helsewhere =>
    have hentry := hentry (isLocal_of_visitElsewhere? helsewhere)
    have htargets : target tree' importer stack entry = target tree importer stack entry := by
      unfold target
      dsimp only
      rw [h.isFile_eq (hentry.elim h.kindAt_eq And.right), h.workdir_eq]
    rw [htargets]
    cases htarget : target tree importer stack entry with
    | error e => rfl
    | ok path =>
      rw [ok_bind, ok_bind]
      split
      · rfl
      · next hstack =>
        obtain rfl := (target_eq_ok htarget).1
        rw [loadFile_of_agreeOff h htarget
          (hentry.resolve_right fun hback => hstack (by simpa using hback.1))]

/-- A document that is reached over imports. -/
def Reached (tree : FileTree) (root : Path) (settings : Entries) (path : Path) : Prop :=
  Relation.TransGen (fun p q => q ∈ successors tree root settings p) root path

/-- **A visit that reaches no location set apart** does not tell the trees apart. -/
theorem visit_of_agreeOff {entries : List Entry} (h : tree.AgreeOff apart tree')
    (hkind : tree'.kindAt root.names = tree.kindAt root.names)
    (hreached : ∀ path, Reached tree root settings path → ¬apart path.names ∨ path = root)
    (hentries : Entry.parseAll (getD settings "imports") = .ok entries) (depth : Nat)
    (hagrees : v.cache.Agrees tree) :
    visit tree' base inlining depth root [root] entries v =
      visit tree base inlining depth root [root] entries v := by
  have hpaired : Paired (fun v v' => v' = v ∧ v.cache.Agrees tree) Eq
      (visit tree base inlining depth root [root] entries v)
      (visit tree' base inlining depth root [root] entries v) := by
    refine visit_paired (A := fun importer stack importer' stack' entry => importer' = importer ∧
      stack' = stack ∧ Asked tree root settings importer stack entry) ?_
      (fun entry hentry => ⟨rfl, rfl, .start hentries entry hentry⟩) ⟨rfl, hagrees⟩
    rintro _ _ importer stack entry _ v ⟨rfl, rfl, hasked⟩ ⟨rfl, hagrees⟩
    rw [move_of_agreeOff h fun hlocal => ?_]
    · cases hstep : move tree base inlining importer stack v entry with
      | error e => exact .error rfl
      | ok m =>
        have hmoved := moved_of_move hstep
        have hafter := hmoved.agrees hagrees
        cases m with
        | stay v₁ => exact .stay ⟨rfl, hafter⟩
        | descend path nested v₁ =>
          exact .descend ⟨rfl, hafter⟩ fun e he => ⟨rfl, rfl, hmoved.asks hasked hagrees e he⟩
    · refine (hreached _ (.tail' hasked.reachable (hasked.edge hlocal))).imp_right fun heq => ?_
      rw [heq]
      exact ⟨hasked.way.root_mem, hkind⟩
  generalize visit tree base inlining depth root [root] entries v = outcome at hpaired ⊢
  generalize visit tree' base inlining depth root [root] entries v = outcome' at hpaired ⊢
  cases hpaired with
  | none => rfl
  | ok h => rw [h.1]
  | error h => rw [h]

/-- The imports of a document are the same when they reach no location set apart, but for the
document itself. -/
theorem resolve_of_agreeOff (h : tree.AgreeOff apart tree')
    (hkind : tree'.kindAt (Path.resolve tree.workdir source).names =
      tree.kindAt (Path.resolve tree.workdir source).names)
    (hreached : ∀ path, Reached tree (Path.resolve tree.workdir source) settings path →
      ¬apart path.names ∨ path = Path.resolve tree.workdir source)
    (himports : getD settings' "imports" = getD settings "imports") :
    resolve tree' .empty inlining source settings' =
      resolve tree .empty inlining source settings := by
  -- Both visits are let go as deep as either needs.
  have hdepth := resolveWithin_eq tree .empty inlining source settings
    (show tree.nodes.length < tree.nodes.length + tree'.nodes.length + 1 by omega)
  have hdepth' := resolveWithin_eq tree' .empty inlining source settings'
    (show tree'.nodes.length < tree.nodes.length + tree'.nodes.length + 1 by omega)
  refine Option.some.inj (hdepth'.symm.trans (Eq.trans ?_ hdepth))
  unfold resolveWithin
  rw [h.workdir_eq, himports]
  cases hparse : Entry.parseAll (getD settings "imports") with
  | error e => rfl
  | ok entries =>
    dsimp only
    rw [visit_of_agreeOff h hkind hreached hparse _ (Cache.agrees_empty tree)]

/-- **The content of the main document does not matter to its imports**, but for the import
list. -/
theorem resolve_of_agreeBut
    (h : FileTree.AgreeBut (Path.resolve tree.workdir source).names tree tree')
    (himports : getD settings' "imports" = getD settings "imports") :
    resolve tree' .empty inlining source settings' =
      resolve tree .empty inlining source settings := by
  refine resolve_of_agreeOff h.agreeOff (h.kindAt_eq _) (fun path hreached => ?_) himports
  rw [or_iff_not_imp_left, not_not]
  intro hnames
  have hroot := root_of_transGen hreached
  cases path
  cases hroot
  cases hnames
  rfl

end Imports

end FlowLock
