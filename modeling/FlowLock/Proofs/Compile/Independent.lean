import FlowLock.CommandLine
import FlowLock.Proofs.Compile.Disk
import FlowLock.Proofs.Import.Source
import FlowLock.Proofs.Text

/-!
# Sources compile independently

A compile reads its source and what this imports, and writes one lock file.  When no import leads
to a lock file, what other compiles wrote is not noticed: a tree in which only lock files are
different gives the same result.  Different sources have different lock files, so compiling them
one after the other leaves in each place what the compile that writes there leaves when it is
alone, in whatever order they come.
-/

namespace FlowLock

open Import Outcome FileTree List Path Document Option

/-! ## Lock files and their sources -/

namespace LockFile

def IsLock (location : Location) : Prop :=
  Text.endsWith (location.getLast?.getD "") ending = true

def locationOf (tree : FileTree) (source : Path) : Location :=
  (resolve tree.workdir (pathOf source)).names

variable {apart : Location → Prop} {tree tree' : FileTree} {source : Path}

theorem locationOf_eq (tree : FileTree) (source : Path) : locationOf tree source =
      (resolve tree.workdir source.parent).names ++ [source.stem ++ ending] :=
  names_resolve_withName tree.workdir source (append_ending_ne_dots source.stem)

theorem isLock_locationOf (tree : FileTree) (source : Path) : IsLock (locationOf tree source) := by
  rw [IsLock, locationOf_eq, getLast?_concat, getD_some]
  exact Text.endsWith_iff.mpr ⟨_, rfl⟩

theorem Replaces.agreeOff {after : FileTree} {location : Location} {bytes : List UInt8}
    (h : Replaces tree after location bytes) : tree.AgreeOff (· = location) after where
  workdir_eq := h.workdir
  directory_iff other := by
    by_cases heq : other = location
    · have hfile := kindAt_eq_file_iff.mpr ⟨bytes, h.file⟩
      rw [heq, hfile]
      exact ⟨nofun, fun hdirectory => absurd hdirectory h.noDirectory⟩
    · rw [h.kind other heq]
  node?_eq := h.node

/-- The temporary file beside a lock file does not count as being in its place. -/
theorem kindAt_put_beside
    (hway : ∀ p, p <+: (resolve tree.workdir source.parent).names →
      tree.kindAt p = .directory) (bytes : List UInt8) :
    (tree.put (freshLocation tree (resolve tree.workdir source.parent).names) bytes).kindAt
        (locationOf tree source) = tree.kindAt (locationOf tree source) := by
  rw [locationOf_eq]
  refine kindAt_put_of_ne (fun p hp hne => ?_) (freshLocation_ne tree _ source.stem)
  exact hway p ((prefix_concat_iff.mp hp).resolve_left hne)

/-- **Writing a lock file goes the same way** in trees with the same directories. -/
theorem fst_write_of_agreeOff (h : tree.AgreeOff apart tree')
    (hway : ∀ p, p <+: (resolve tree.workdir source.parent).names →
      tree.kindAt p = .directory) (content : String) :
    (write noTrouble tree' (pathOf source) content).1 =
      (write noTrouble tree (pathOf source) content).1 := by
  have hparent : (pathOf source).parent = source.parent := parent_withName ..
  set directory := resolve tree.workdir source.parent with hdirectory
  have hdown : ∀ name ∈ directory.names ++ [temporaryName], name ≠ ".." :=
    forall_mem_append.mpr ⟨fun name hname => (mem_collapse hname).2, by decide⟩
  have hlocate : tree'.locate (directory.join { root := "", names := [temporaryName] }) =
      tree.locate (directory.join { root := "", names := [temporaryName] }) :=
    h.locate_eq hdown fun p hp hne => hway p ((prefix_concat_iff.mp hp).resolve_left hne)
  have hway' : ∀ p, p <+: (resolve tree'.workdir source.parent).names →
      tree'.kindAt p = .directory := by
    rw [h.workdir_eq]
    exact fun p hp => (h.directory_iff p).mpr (hway p hp)
  have hplace : ((tree'.put (freshLocation tree' directory.names) (Utf8.encode content)).kindAt
        (locationOf tree source) == .directory) =
      ((tree.put (freshLocation tree directory.names) (Utf8.encode content)).kindAt
        (locationOf tree source) == .directory) := by
    have hkind' := kindAt_put_beside hway' (Utf8.encode content)
    rw [locationOf, h.workdir_eq, ← locationOf] at hkind'
    rw [kindAt_put_beside hway, hkind', Bool.eq_iff_iff, beq_iff_eq, beq_iff_eq, h.directory_iff]
  unfold write
  dsimp only [attempt, noTrouble]
  rw [h.workdir_eq, hparent, ← hdirectory, hlocate]
  cases tree.locate (directory.join { root := "", names := [temporaryName] }) with
  | error problem => rfl
  | ok found =>
    dsimp only
    split
    · rfl
    · rw [put_put, put_put, ← locationOf, rename, rename, hplace]
      split_ifs <;> rfl

end LockFile

theorem Text.eq_of_splitLast {s before after : String} {sep : Char}
    (h : splitLast s sep = some (before, after)) : s = before ++ (sep.toString ++ after) := by
  have hcut : ∀ {cs a b : List Char}, splitOnceList sep cs = some (a, b) → cs = a ++ sep :: b := by
    intro cs a b h
    induction cs generalizing a with
    | nil => cases h
    | cons c cs ih =>
      rw [splitOnceList] at h
      split at h
      · next hc =>
        cases h
        rw [hc, nil_append]
      · obtain ⟨⟨a', b'⟩, hrest, hpair⟩ := map_eq_some_iff.mp h
        cases hpair
        rw [ih hrest, cons_append]
  obtain ⟨⟨b, a⟩, hsplit, hpair⟩ := map_eq_some_iff.mp h
  cases hpair
  have htext := congrArg reverse (hcut hsplit)
  rw [reverse_reverse, reverse_append, reverse_cons, append_assoc] at htext
  apply String.toList_injective
  simpa using htext

namespace Compile

variable {tree tree' : FileTree} {source source' : Path} {request : Request} {α : Type}
  {x y : Outcome α}

theorem name_of_isSource (h : isSource source) : source.name = source.stem ++ ".md" := by
  have hsuffix : (splitName source.name).2 = ".md" := by
    simpa [suffix] using (Bool.and_eq_true_iff.mp h).2
  rw [stem]
  revert hsuffix
  unfold splitName
  split
  · next stem extension hsplit =>
    split
    · exact fun hsuffix => absurd hsuffix (by decide : "" ≠ ".md")
    · intro hsuffix
      rw [← hsuffix]
      exact Text.eq_of_splitLast hsplit
  · exact fun hsuffix => absurd hsuffix (by decide : "" ≠ ".md")

theorem names_resolve_of_isSource (directory : Path) (h : isSource source) :
    (resolve directory source).names =
      (resolve directory source.parent).names ++ [source.stem ++ ".md"] := by
  have hname := name_of_isSource h
  have hlength : (source.stem ++ ".md").length = source.stem.length + 3 := String.length_append ..
  have hdots : source.stem ++ ".md" ≠ ".." := by
    intro heq
    have htwo : "..".length = 2 := rfl
    rw [heq] at hlength
    omega
  have hwith : source.withName (source.stem ++ ".md") = source := by
    rw [← hname, withName, name]
    cases hlast : source.names.getLast? with
    | none =>
      rw [← hname, name, hlast] at hlength
      exact absurd hlength (by simp)
    | some last => rw [getD_some, dropLast_append_getLast? last hlast]
  have hnames := names_resolve_withName directory source hdots
  rwa [hwith] at hnames

theorem not_isLock_of_isSource (directory : Path) (h : isSource source) :
    ¬LockFile.IsLock (resolve directory source).names := by
  rw [LockFile.IsLock, names_resolve_of_isSource directory h, getLast?_concat,
    getD_some, ← name_of_isSource h]
  simpa using (Bool.and_eq_true_iff.mp h).1

/-- **Different sources have different lock files.** -/
theorem resolve_eq_of_locationOf (h : isSource source) (h' : isSource source')
    (heq : LockFile.locationOf tree source = LockFile.locationOf tree source') :
    resolve tree.workdir source = resolve tree.workdir source' := by
  rw [LockFile.locationOf_eq, LockFile.locationOf_eq] at heq
  obtain ⟨hdirectory, hlast⟩ := append_inj' heq rfl
  have hstem : source.stem = source'.stem := String.append_left_inj _ |>.mp (singleton_inj.mp hlast)
  refine congrArg (mk "/") ?_
  change (resolve tree.workdir source).names = (resolve tree.workdir source').names
  rw [names_resolve_of_isSource _ h, names_resolve_of_isSource _ h', hdirectory, hstem]

/-- Nothing that a source imports, be it over other documents, has the name of a lock file. -/
def ImportsNoLock (tree : FileTree) (source : Path) : Prop :=
  ∀ document, read tree source true = .ok document →
    ∀ path, Imports.Reached tree (resolve tree.workdir source) document.settings path →
      ¬LockFile.IsLock path.names

inductive Alike {α : Type} : Outcome α → Outcome α → Prop
  | same (x : Outcome α) : Alike x x
  | failed {e e' : Error} (h : e ≠ .fatal) (h' : e' ≠ .fatal) : Alike (.error e) (.error e')

theorem Alike.isOk_eq (h : Alike x y) : y.isOk = x.isOk := by
  cases h <;> rfl

theorem Alike.ne_fatal (h : Alike x y) (hx : x ≠ .error .fatal) : y ≠ .error .fatal := by
  cases h with
  | same => exact hx
  | failed _ h' => exact fun heq => h' (Except.error.inj heq)

theorem Alike.ok_inj {a b : α} (h : Alike (.ok a) (.ok b)) : a = b := by
  cases h
  rfl

theorem Alike.bind {β : Type} {f g : α → Outcome β} (h : Alike x y)
    (hf : ∀ a, x = .ok a → f a = g a) : Alike (x >>= f) (y >>= g) := by
  cases h with
  | failed h h' => exact .failed h h'
  | same =>
    cases x with
    | error e => exact .same _
    | ok a =>
      rw [ok_bind, ok_bind, hf a rfl]
      exact .same _

theorem read_alike (h : tree.AgreeOff LockFile.IsLock tree') (hsource : isSource source) :
    Alike (read tree source true) (read tree' source true) := by
  obtain hlocate | ⟨p, p', hp, hp', habsent, habsent'⟩ := h.locate_cases source
  · rw [Document.read, Document.read,
      h.readText_eq hlocate (not_isLock_of_isSource tree.workdir hsource)]
    exact .same _
  · rw [Document.read, Document.read, readText_of_locate_error hp, readText_of_locate_error hp']
    cases habsent <;> cases habsent' <;> exact .failed nofun nofun

/-- **What others write in lock files does not matter to a source that imports none.** -/
theorem render_alike (h : tree.AgreeOff LockFile.IsLock tree')
    (himports : ImportsNoLock tree source) (request : Request) :
    Alike (render tree request source) (render tree' request source) := by
  unfold render
  cases hsource : isSource source with
  | false => exact .same _
  | true =>
    have hworkflow : Alike (workflowOf tree request source) (workflowOf tree' request source) := by
      refine (read_alike h hsource).bind fun document hdocument => ?_
      dsimp only
      rw [Imports.resolve_of_agreeOff h
        (h.kindAt_eq (not_isLock_of_isSource tree.workdir hsource))
        (fun path hreached => .inl (himports document hdocument path hreached)) rfl]
    rw [h.workdir_eq]
    exact hworkflow.bind fun _ _ => rfl

theorem directory_of_render {result : Result} (h : render tree request source = .ok result) :
    ∀ p, p <+: (resolve tree.workdir source.parent).names → tree.kindAt p = .directory := by
  obtain ⟨w, -, -, -, -, hsource, hw, -⟩ := render_eq_ok.mp h
  obtain ⟨document, hread, -⟩ := bind_eq_ok.mp hw
  cases hlocate : tree.locate source with
  | error problem =>
    rw [Document.read, readText_of_locate_error hlocate] at hread
    cases hread
  | ok location =>
    obtain rfl := locate_eq_ok hlocate
    have hnames := names_resolve_of_isSource tree.workdir hsource
    intro p hp
    refine directory_of_locate hlocate (hnames ▸ hp.trans (prefix_append ..))
      (.inl fun heq => ?_)
    have hle := hp.length_le
    rw [heq, hnames, length_append, length_singleton] at hle
    omega

/-- **Neither does it matter to what becomes of the compile.** -/
theorem run_alike (h : tree.AgreeOff LockFile.IsLock tree')
    (himports : ImportsNoLock tree source) (request : Request) :
    Alike (run LockFile.noTrouble tree request source).1
      (run LockFile.noTrouble tree' request source).1 := by
  have hrender := render_alike h himports request
  unfold run
  generalize hfound : render tree request source = found at hrender ⊢
  generalize render tree' request source = found' at hrender ⊢
  cases hrender with
  | failed he he' => exact .failed he he'
  | same =>
    cases found with
    | error e => exact .same _
    | ok result =>
      dsimp only
      split
      · exact .same _
      · have hwrite := LockFile.fst_write_of_agreeOff h (directory_of_render hfound) result.content
        rw [← (lockPath_of_render hfound).1] at hwrite
        generalize LockFile.write LockFile.noTrouble tree result.lockPath result.content = done
          at hwrite ⊢
        generalize LockFile.write LockFile.noTrouble tree' result.lockPath result.content = done'
          at hwrite ⊢
        obtain ⟨outcome, after⟩ := done
        obtain ⟨outcome', after'⟩ := done'
        obtain rfl : outcome' = outcome := hwrite
        cases outcome' <;> exact .same _

end Compile

/-! ## One compile after the other -/

namespace CommandLine

open Compile (ImportsNoLock run_alike ran)
open LockFile (IsLock locationOf)

variable {tree now : FileTree} {request : Compile.Request} {done : List Path} {source : Path}
  {sources : List Path}

def alone (tree : FileTree) (request : Compile.Request) (source : Path) :
    Outcome Compile.Result × FileTree :=
  Compile.run LockFile.noTrouble tree request source

def Compiles (tree : FileTree) (request : Compile.Request) (source : Path) : Prop :=
  (alone tree request source).1.isOk = true

/-- What compiles leave of a tree: the lock file of each source that compiles is what the source
leaves there when it is alone, and all else is as it was. -/
structure Left (tree : FileTree) (request : Compile.Request) (sources : List Path)
    (after : FileTree) : Prop where
  rest : tree.AgreeOff
    (fun location => ∃ s ∈ sources, Compiles tree request s ∧ location = locationOf tree s) after
  lock : ∀ s ∈ sources, Compiles tree request s →
    after.node? (locationOf tree s) = (alone tree request s).2.node? (locationOf tree s)

theorem Left.agreeOff (h : Left tree request done now) : tree.AgreeOff IsLock now :=
  h.rest.mono fun _ ⟨s, _, _, heq⟩ => heq ▸ LockFile.isLock_locationOf tree s

theorem locationOf_ne {s : Path} (hs : Compiles tree request s) (h : Compiles tree request source)
    (hne : resolve tree.workdir s ≠ resolve tree.workdir source) :
    locationOf tree s ≠ locationOf tree source := by
  have hsource : ∀ {s : Path}, Compiles tree request s → Compile.isSource s := by
    intro s h
    have hran := ran LockFile.noTrouble tree request s
    rw [Compiles, alone] at h
    generalize Compile.run LockFile.noTrouble tree request s = r at hran h
    cases hran with
    | failed => cases h
    | rendered _ hrender | written _ hrender _ =>
      obtain ⟨-, -, -, -, -, hsource, -⟩ := Compile.render_eq_ok.mp hrender
      exact hsource
  exact fun heq => hne (Compile.resolve_eq_of_locationOf (hsource hs) (hsource h) heq)

/-- **What a compile does after others**: it changes its lock file when it compiles alone, and in
the same way. -/
theorem alone_after (request : Compile.Request) (h : tree.AgreeOff IsLock now)
    (himports : ImportsNoLock tree source) :
    now.AgreeOff (fun location => Compiles tree request source ∧ location = locationOf tree source)
      (alone now request source).2 ∧
    (Compiles tree request source →
      now.node? (locationOf tree source) = tree.node? (locationOf tree source) →
      (alone now request source).2.node? (locationOf tree source) =
        (alone tree request source).2.node? (locationOf tree source)) := by
  have halike := run_alike h himports request
  have hran := ran LockFile.noTrouble tree request source
  have hran' := ran LockFile.noTrouble now request source
  rw [Compiles, alone, alone]
  generalize Compile.run LockFile.noTrouble tree request source = r at halike hran ⊢
  generalize Compile.run LockFile.noTrouble now request source = r' at halike hran' ⊢
  cases hran with
  | failed =>
    cases hran' with
    | failed => exact ⟨.refl now, nofun⟩
    | rendered | written => cases halike
  | rendered hwrites hrender =>
    cases hran' with
    | failed => cases halike
    | rendered => exact ⟨.refl now, fun _ hsame => hsame⟩
    | written hwrites' => rw [hwrites] at hwrites'; cases hwrites'
  | @written result hwrites hrender hpermits =>
    cases hran' with
    | failed => cases halike
    | rendered hwrites' => rw [hwrites] at hwrites'; cases hwrites'
    | @written result' _ hrender' hpermits' =>
      have hcontent := congrArg Compile.Result.content halike.ok_inj
      dsimp only at hcontent ⊢
      rw [(Compile.lockPath_of_render hrender').1] at hpermits' ⊢
      rw [(Compile.lockPath_of_render hrender).1, hcontent, h.workdir_eq, ← locationOf]
      have hafter : LockFile.Replaces now
          (now.put (locationOf tree source) (Utf8.encode result'.content))
          (locationOf tree source) (Utf8.encode result'.content) := by
        rw [locationOf, ← h.workdir_eq]
        exact LockFile.replaces_of_permits hpermits'
      refine ⟨hafter.agreeOff.mono fun location heq => ⟨rfl, heq⟩, fun _ _ => ?_⟩
      rw [hafter.file, node?_put, if_pos rfl]

/-- **One more compile** leaves the lock file that it leaves when it is alone. -/
theorem Left.next (h : Left tree request done now) (himports : ImportsNoLock tree source)
    (hnew : ∀ s ∈ done, resolve tree.workdir s ≠ resolve tree.workdir source) :
    Left tree request (done ++ [source]) (alone now request source).2 where
  rest := by
    refine (h.rest.trans (alone_after request h.agreeOff himports).1).mono fun location hapart => ?_
    obtain ⟨s, hs, hlock⟩ | hlock := hapart
    · exact ⟨s, mem_append_left _ hs, hlock⟩
    · exact ⟨source, mem_append_right _ (mem_singleton_self _), hlock⟩
  lock := by
    obtain ⟨hothers, hown⟩ := alone_after request h.agreeOff himports
    refine forall_mem_append.mpr ⟨fun s hs hcompiles => ?_,
      forall_mem_singleton.mpr fun hcompiles => hown hcompiles ?_⟩
    · rw [hothers.node?_eq _ fun hlock => locationOf_ne hcompiles hlock.1 (hnew s hs) hlock.2]
      exact h.lock s hs hcompiles
    · exact h.rest.node?_eq _ fun ⟨s, hs, hcompiles', heq⟩ =>
        locationOf_ne hcompiles' hcompiles (hnew s hs) heq.symm

/-- The run goes on with the next source unless a compile breaks off. -/
theorem compileOne_eq {p : Progress} (h : (alone p.tree request source).1 ≠ .error .fatal) :
    ∃ p', compileOne request p source = .ok p' ∧ p'.tree = (alone p.tree request source).2 ∧
      p'.failures = p.failures + if (alone p.tree request source).1.isOk then 0 else 1 := by
  unfold compileOne
  rw [← alone]
  generalize alone p.tree request source = r at h
  obtain ⟨e | result, after⟩ := r
  · cases e <;> first | exact absurd rfl h | exact ⟨_, rfl, rfl, rfl⟩
  · exact ⟨_, rfl, rfl, rfl⟩

def failing (tree : FileTree) (request : Compile.Request) (sources : List Path) : Nat :=
  sources.countP fun s => !(alone tree request s).1.isOk

structure Together (tree : FileTree) (request : Compile.Request) (sources : List Path) : Prop where
  distinct : (sources.map (resolve tree.workdir)).Nodup
  imports : ∀ s ∈ sources, ImportsNoLock tree s
  refused : ∀ s ∈ sources, (alone tree request s).1 ≠ .error .fatal

/-- **The run over several sources** leaves what each of them leaves when it is alone, and counts
those that do not compile. -/
theorem foldlM_compileOne_left (h : Together tree request sources) :
    ∃ p, sources.foldlM (compileOne request) { tree } = .ok p ∧ Left tree request sources p.tree ∧
      p.failures = failing tree request sources := by
  induction sources using reverseRecOn with
  | nil => exact ⟨{ tree }, rfl, ⟨.refl tree, forall_mem_nil _⟩, rfl⟩
  | append_singleton sources source ih =>
    obtain ⟨hdistinct, himports, hrefused⟩ := h
    rw [map_append, map_singleton] at hdistinct
    obtain ⟨hdistinct, -, hdisjoint⟩ := nodup_append'.mp hdistinct
    obtain ⟨himports, himports'⟩ := forall_mem_append.mp himports
    obtain ⟨hrefused, hrefused'⟩ := forall_mem_append.mp hrefused
    have hsource := mem_singleton_self source
    obtain ⟨p, hp, hleft, hfailures⟩ := ih ⟨hdistinct, himports, hrefused⟩
    have halike := run_alike hleft.agreeOff (himports' source hsource) request
    rw [← alone, ← alone] at halike
    obtain ⟨p', hone, htree, hcount⟩ := compileOne_eq (halike.ne_fatal (hrefused' source hsource))
    refine ⟨p', ?_, htree ▸ hleft.next (himports' source hsource) fun s hs heq =>
      hdisjoint (mem_map_of_mem hs) (heq ▸ mem_singleton_self _), ?_⟩
    · rw [foldlM_append, hp, ok_bind, foldlM_cons, hone, ok_bind]
      rfl
    · rw [hcount, halike.isOk_eq, hfailures, failing, failing, countP_append, countP_singleton]
      cases (alone tree request source).1.isOk <;> rfl

theorem compileAll_left (h : Together tree request sources) :
    ∃ output after, compileAll tree request sources = .ok (output, after) ∧
      Left tree request sources after ∧
      output.exit = if failing tree request sources = 0 then 0 else 1 := by
  obtain ⟨p, hp, hleft, hfailures⟩ := foldlM_compileOne_left h
  unfold compileAll
  rw [hp, ok_bind]
  refine ⟨_, _, rfl, hleft, ?_⟩
  simp only [hfailures, beq_iff_eq]

theorem Left.same {sources' : List Path} {after after' : FileTree}
    (h : Left tree request sources after) (h' : Left tree request sources' after')
    (hmem : ∀ s, s ∈ sources' ↔ s ∈ sources) : after.AgreeOff (fun _ => False) after' where
  workdir_eq := h'.rest.workdir_eq.trans h.rest.workdir_eq.symm
  directory_iff location :=
    (h'.rest.directory_iff location).trans (h.rest.directory_iff location).symm
  node?_eq location _ := by
    by_cases hlock : ∃ s ∈ sources, Compiles tree request s ∧ location = locationOf tree s
    · obtain ⟨s, hs, hcompiles, rfl⟩ := hlock
      rw [h.lock s hs hcompiles, h'.lock s ((hmem s).mpr hs) hcompiles]
    · rw [h.rest.node?_eq location hlock,
        h'.rest.node?_eq location fun ⟨s, hs, hrest⟩ => hlock ⟨s, (hmem s).mp hs, hrest⟩]

def twoSources : FileTree :=
  { nodes :=
      [(["repo", "a.md"], .file (Utf8.encode "---\non: push\nimports: [c.md]\n---\nHi\n")),
       (["repo", "b.md"], .file (Utf8.encode "Hi\n")),
       (["repo", "c.md"], .file (Utf8.encode "C\n"))]
    workdir := ofText "/repo" }

def openSources : List Path := [.ofText "/repo/a.md", .ofText "/repo/c.md"]

/-- How a command that writes nothing compiles them. -/
def dryRequest : Compile.Request := { config := { compilerVersion := version }, writes := false }

end CommandLine

end FlowLock
