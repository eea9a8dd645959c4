import FlowLock.Proofs.Import.Cache
import FlowLock.Proofs.Text.Distinct
import Mathlib.Data.Set.Function

/-!
# The cache cannot be told from reading anew

Files are read through one cache while they change.  What a read gives is what the file holds at
that moment, whatever was read and kept before: as long as texts are told apart by their digests,
the cache never answers from an older one, and a text that cannot be taken apart never displaces
a document that is kept.

A session is a tree of files, a cache and the answers so far.  `Session.Keeps` says what they have
to do with the reads that were made; one event keeps it, so every run of events does.
-/

namespace FlowLock.Import

open List

/-! ## Reads without a cache -/

structure Reading where
  tree : FileTree
  path : Path

namespace Reading

def target (r : Reading) : Path := Path.resolve r.tree.workdir r.path

def text? (r : Reading) : Option String := (r.tree.readText r.target).toOption

def anew (r : Reading) : Outcome Cached :=
  match r.tree.readText r.target with
  | .error problem => .error (.ofFile r.target.text .importUnreadable problem)
  | .ok content => Cache.parse r.target content

theorem text?_of_readText {r : Reading} {content : String}
    (h : r.tree.readText r.target = .ok content) : r.text? = some content := by
  rw [text?, h]
  rfl

end Reading

namespace Cache

/-! ## Entries -/

variable {cache : Cache} {path : Path} {cached : Cached}

theorem mem_of_get? (h : cache.get? path = some cached) : (path, cached) ∈ cache.entries := by
  obtain ⟨e, he, rfl⟩ := Option.map_eq_some_iff.mp h
  have hpath := find?_some he
  obtain rfl : e.1 = path := by simpa using hpath
  exact mem_of_find?_eq_some he

theorem mem_put {e : Path × Cached} (h : e ∈ (cache.put path cached).entries) :
    e = (path, cached) ∨ e ∈ cache.entries := by
  have hmem : ∀ es : List (Path × Cached), e ∈ putEntry path cached es →
      e = (path, cached) ∨ e ∈ es := by
    intro es he
    induction es with
    | nil => exact .inl (mem_singleton.mp he)
    | cons d es ih =>
      rw [putEntry] at he
      split at he
      · exact (mem_cons.mp he).imp id fun hold => mem_cons_of_mem d hold
      · rcases mem_cons.mp he with rfl | he
        · exact .inr mem_cons_self
        · exact (ih he).imp id fun hold => mem_cons_of_mem d hold
  exact hmem cache.entries h

theorem paths_put (cache : Cache) (path : Path) (cached : Cached) : (cache.put path cached).paths =
      cache.paths ++ if path ∈ cache.paths then [] else [path] := by
  split
  · next hmem =>
    have hkeep : ∀ es : List (Path × Cached), path ∈ es.map (·.1) →
        (putEntry path cached es).map (·.1) = es.map (·.1) := by
      intro es hes
      induction es with
      | nil => cases hes
      | cons e es ih =>
        by_cases he : e.1 = path
        · simp [putEntry, he]
        · have hrest : path ∈ es.map (·.1) := by simpa [Ne.symm he] using hes
          simpa [putEntry, he] using ih hrest
    rw [append_nil]
    exact hkeep cache.entries hmem
  · next hnew => simp [paths, put, putEntry_of_not_mem hnew]

/-! ## Reads -/

theorem read_target (cache : Cache) (r : Reading) :
    cache.read r.tree r.target = cache.read r.tree r.path := by
  simp [read, Reading.target]

theorem readAs_of_reading {after : Cache} {r : Reading}
    (h : cache.read r.tree r.path = (.ok cached, after)) :
    ReadAs cache r.tree r.target cached after := by
  refine readAs_of_read (Path.resolve_resolve _ _ _) ?_
  rw [read_target, h]

/-- What a read that fails does: it fails as it would without the cache, and at most the number
of documents not found changes. -/
theorem of_read_error {after : Cache} {r : Reading} {e : Error}
    (h : cache.read r.tree r.path = (.error e, after)) :
    r.anew = .error e ∧
      after = { cache with misses := cache.misses + if r.text?.isSome then 1 else 0 } := by
  rw [← read_target] at h
  simp only [read, Reading.target, Path.resolve_resolve] at h
  unfold Reading.anew Reading.text? Reading.target
  split at h
  · next problem htext =>
    simp only [Prod.mk.injEq] at h
    obtain ⟨he, rfl⟩ := h
    simp [htext, Except.toOption, ← he]
  · next content htext =>
    split at h
    · simp at h
    · split at h
      · simp at h
      · next e' hparse =>
        simp only [Prod.mk.injEq] at h
        obtain ⟨he, rfl⟩ := h
        simp [htext, hparse, Except.toOption, ← he]

theorem content_of_parse {content : String} (h : parse path content = .ok cached) :
    cached.content = content := by
  obtain ⟨document, -, h⟩ := Outcome.bind_eq_ok.mp h
  cases h
  rfl

section Read

variable {cache after : Cache} {r : Reading} {answer : Outcome Cached}
  (h : cache.read r.tree r.path = (answer, after))

include h

theorem count_of_read : after.hits + after.misses =
      cache.hits + cache.misses + if r.text?.isSome then 1 else 0 := by
  cases answer with
  | error e =>
    obtain ⟨-, rfl⟩ := of_read_error h
    exact (Nat.add_assoc _ _ _).symm
  | ok cached =>
    have hread := readAs_of_reading h
    have htext : r.text?.isSome := by
      cases hread with
      | hit htext _ _ | miss htext _ _ => rw [Reading.text?_of_readText htext]; rfl
    rw [hread.count, if_pos htext]

theorem mem_of_read {e : Path × Cached} (he : e ∈ after.entries) :
    e ∈ cache.entries ∨ r.text? = some e.2.content ∧ parse e.1 e.2.content = .ok e.2 := by
  cases answer with
  | error e' =>
    obtain ⟨-, rfl⟩ := of_read_error h
    exact .inl he
  | ok cached =>
    cases readAs_of_reading h with
    | hit _ _ _ => exact .inl he
    | miss htext hparse _ =>
      rcases mem_put he with rfl | he
      · obtain rfl := content_of_parse hparse
        exact .inr ⟨Reading.text?_of_readText htext, hparse⟩
      · exact .inl he

theorem paths_of_read (hok : answer.isOk) :
    after.paths = cache.paths ++ if r.target ∈ cache.paths then [] else [r.target] := by
  cases answer with
  | error e => cases hok
  | ok cached =>
    cases readAs_of_reading h with
    | hit _ hget _ =>
      have hmem : r.target ∈ cache.paths := mem_map_of_mem (mem_of_get? hget)
      rw [if_pos hmem, append_nil]
      rfl
    | miss _ _ _ => exact paths_put _ _ _

theorem entries_of_read_error (herror : answer.isOk = false) : after.entries = cache.entries := by
  cases answer with
  | error e =>
    obtain ⟨-, rfl⟩ := of_read_error h
    rfl
  | ok cached => cases herror

/-- A read changes at most what is kept for its own path, and only for what the text there is
taken apart into. -/
theorem get?_of_read {other : Path} (hchanged : after.get? other ≠ cache.get? other) :
    other = r.target ∧ ∃ content cached, r.tree.readText r.target = .ok content ∧
      parse r.target content = .ok cached ∧ answer = .ok cached ∧
      after.get? other = some cached := by
  cases answer with
  | error e =>
    obtain ⟨-, rfl⟩ := of_read_error h
    exact absurd rfl hchanged
  | ok cached =>
    cases readAs_of_reading h with
    | hit _ _ _ => exact absurd rfl hchanged
    | @miss content htext hparse _ =>
      rw [get?_put] at hchanged ⊢
      split at hchanged
      · next heq =>
        exact ⟨heq.symm, content, cached, htext, hparse, rfl, if_pos heq⟩
      · exact absurd rfl hchanged

end Read

end Cache

/-! ## Sessions -/

/-- What can happen next: the files change in some way, or one of them is read. -/
inductive Event where
  | edit (tree : FileTree)
  | read (path : Path)

/-- The reads among some events, each with the files as they are then. -/
def readings : FileTree → List Event → List Reading
  | _, [] => []
  | _, .edit tree :: events => readings tree events
  | tree, .read path :: events => ⟨tree, path⟩ :: readings tree events

/-- The files, the cache, and what the reads so far gave. -/
structure Session where
  tree : FileTree
  cache : Cache
  answers : List (Outcome Cached)

namespace Session

def start (tree : FileTree) : Session := { tree, cache := .empty, answers := [] }

def step (s : Session) : Event → Session
  | .edit tree => { s with tree }
  | .read path =>
    { s with
      cache := (s.cache.read s.tree path).2
      answers := s.answers ++ [(s.cache.read s.tree path).1] }

def run (s : Session) (events : List Event) : Session := events.foldl step s

def Distinguished (made : List Reading) : Prop :=
  Set.InjOn Sha256.hexOfText {text | ∃ r ∈ made, r.text? = some text}

structure Keeps (s : Session) (made : List Reading) : Prop where
  answers : s.answers = made.map Reading.anew
  /-- An entry is what the text of some read is taken apart into. -/
  entries : ∀ e ∈ s.cache.entries,
    Cache.parse e.1 e.2.content = .ok e.2 ∧ ∃ r ∈ made, r.text? = some e.2.content
  count : s.cache.hits + s.cache.misses = made.countP (·.text?.isSome)
  paths : s.cache.paths = ((made.filter (·.anew.isOk)).map Reading.target).eraseDups

theorem keeps_start (tree : FileTree) : (start tree).Keeps [] where
  answers := rfl
  entries := by simp [start, Cache.empty]
  count := rfl
  paths := rfl

variable {s : Session} {made : List Reading}

/-- A read gives what reading anew gives.  A document that is found came from a text with the
digest of the text that is there, so from that text. -/
theorem Keeps.anew_eq {r : Reading} {answer : Outcome Cached} {after : Cache} (h : s.Keeps made)
    (hdistinct : Distinguished (made ++ [r]))
    (hread : s.cache.read r.tree r.path = (answer, after)) : r.anew = answer := by
  cases answer with
  | error e => exact (Cache.of_read_error hread).1
  | ok cached =>
    cases Cache.readAs_of_reading hread with
    | miss htext hparse _ =>
      rw [Reading.anew, htext]
      exact hparse
    | @hit content htext hget hdigest =>
      obtain ⟨hparse, r', hr', htext'⟩ := h.entries _ (Cache.mem_of_get? hget)
      have hcontent : cached.content = content := by
        refine hdistinct ⟨r', mem_append_left _ hr', htext'⟩
          ⟨r, by simp, Reading.text?_of_readText htext⟩ ?_
        rw [← hdigest, (Cache.split_of_parse hparse).2]
      rw [Reading.anew, htext, ← hcontent]
      exact hparse

/-- **One read**, and what a session keeps then. -/
theorem Keeps.read (h : s.Keeps made) (path : Path)
    (hdistinct : Distinguished (made ++ [⟨s.tree, path⟩])) :
    (s.step (.read path)).Keeps (made ++ [⟨s.tree, path⟩]) := by
  set r : Reading := ⟨s.tree, path⟩
  obtain ⟨answer, after, hread⟩ : ∃ answer after, s.cache.read r.tree r.path = (answer, after) :=
    ⟨_, _, rfl⟩
  have hstep : s.step (.read path) =
      { s with cache := after, answers := s.answers ++ [answer] } := by
    rw [step, show s.cache.read s.tree path = (answer, after) from hread]
  have hanew := h.anew_eq hdistinct hread
  rw [hstep]
  exact
    { answers := by
        rw [h.answers, map_append, map_singleton, hanew]
      entries := by
        intro e he
        rcases Cache.mem_of_read hread he with hold | ⟨htext, hparse⟩
        · obtain ⟨hparse, q, hq, htext⟩ := h.entries e hold
          exact ⟨hparse, q, mem_append_left _ hq, htext⟩
        · exact ⟨hparse, r, by simp, htext⟩
      count := by
        rw [countP_append, countP_singleton, ← h.count]
        exact Cache.count_of_read hread
      paths := by
        rw [filter_append, filter_singleton, hanew]
        cases hok : answer.isOk with
        | false =>
          rw [cond_false, append_nil, ← h.paths]
          exact congrArg (map (·.1)) (Cache.entries_of_read_error hread hok)
        | true =>
          rw [cond_true, map_append, map_singleton, Text.eraseDups_concat, ← h.paths]
          refine (Cache.paths_of_read hread hok).trans ?_
          rw [h.paths]
          simp only [mem_eraseDups] }

/-- **Every run of events** keeps it. -/
theorem Keeps.run (h : s.Keeps made) (events : List Event)
    (hdistinct : Distinguished (made ++ readings s.tree events)) :
    (s.run events).Keeps (made ++ readings s.tree events) := by
  induction events generalizing s made with
  | nil => rwa [readings, append_nil]
  | cons event events ih =>
    cases event with
    | edit tree => exact ih ⟨h.answers, h.entries, h.count, h.paths⟩ hdistinct
    | read path =>
      have hsplit : made ++ readings s.tree (.read path :: events) =
          made ++ [⟨s.tree, path⟩] ++ readings s.tree events := by
        rw [append_assoc]
        rfl
      rw [hsplit] at hdistinct ⊢
      refine ih (h.read path (hdistinct.mono ?_)) hdistinct
      rintro text ⟨r, hr, htext⟩
      exact ⟨r, mem_append_left _ hr, htext⟩

/-- **The cache cannot be told from reading anew.**  However the files change between reads,
each read gives what the file gives at that moment; every document that is kept is that of the
text whose digest it carries; the reads that obtain a text are counted, each once; and the paths
that are kept are those that were ever taken apart.  A further read that fails keeps the entries
as they are, and any other changes its own path only, for what the text there is taken apart
into. -/
theorem reads_through_cache (tree : FileTree) (events : List Event)
    (hdistinct : Distinguished (readings tree events)) :
    let made := readings tree events
    let s := (start tree).run events
    s.answers = made.map Reading.anew ∧
      (∀ e ∈ s.cache.entries, e.2.digest = Sha256.hexOfText e.2.content ∧
        Cache.parse e.1 e.2.content = .ok e.2) ∧
      s.cache.hits + s.cache.misses = made.countP (·.text?.isSome) ∧
      s.cache.paths = ((made.filter (·.anew.isOk)).map Reading.target).eraseDups ∧
      s.cache.size = ((made.filter (·.anew.isOk)).map Reading.target).eraseDups.length ∧
      ∀ path answer after, s.cache.read s.tree path = (answer, after) →
        (answer.isOk = false → after.entries = s.cache.entries) ∧
        ∀ other, after.get? other ≠ s.cache.get? other →
          other = Path.resolve s.tree.workdir path ∧
            ∃ content cached, s.tree.readText other = .ok content ∧
              Cache.parse other content = .ok cached ∧ answer = .ok cached ∧
              after.get? other = some cached := by
  intro made s
  have hkeeps : s.Keeps made := (keeps_start tree).run events hdistinct
  refine ⟨hkeeps.answers, ?_, hkeeps.count, hkeeps.paths, ?_, ?_⟩
  · intro e he
    have hparse := (hkeeps.entries e he).1
    exact ⟨(Cache.split_of_parse hparse).2, hparse⟩
  · rw [← hkeeps.paths, Cache.paths, length_map, Cache.size]
  · intro path answer after hread
    have hreading : s.cache.read (Reading.mk s.tree path).tree (Reading.mk s.tree path).path =
        (answer, after) := hread
    refine ⟨Cache.entries_of_read_error hreading, fun other hchanged => ?_⟩
    obtain ⟨rfl, hrest⟩ := Cache.get?_of_read hreading hchanged
    exact ⟨rfl, hrest⟩

def holding (text : String) : FileTree :=
  { nodes := [(["repo", "a.md"], .file (Utf8.encode text))]
    workdir := .ofText "/repo" }

/-- A file that is read, spoilt, written anew and changed back, and read each time. -/
def changes : List Event :=
  [.read (.ofText "a.md"), .edit (holding "---\n"), .read (.ofText "a.md"),
   .edit (holding "two\n"), .read (.ofText "a.md"), .edit (holding "one\n"),
   .read (.ofText "a.md"), .read (.ofText "./a.md")]

theorem changes_read_anew :
    let made := readings (holding "one\n") changes
    let s := (start (holding "one\n")).run changes
    Distinguished made ∧ made.map (·.anew.isOk) = [true, false, true, true, true] ∧
      s.answers = made.map Reading.anew ∧ s.cache.hits + s.cache.misses = 5 ∧
      s.cache.size = 1 := by
  intro made s
  have htexts : made.map Reading.text? =
      [some "one\n", some "---\n", some "two\n", some "one\n", some "one\n"] := by
    decide +kernel
  have hdigests : (["one\n", "---\n", "two\n"].map Sha256.hexOfText).Nodup := by decide +kernel
  have hmem : ∀ text, (∃ r ∈ made, r.text? = some text) → text ∈ ["one\n", "---\n", "two\n"] := by
    rintro text ⟨r, hr, htext⟩
    have hsome : some text ∈ made.map Reading.text? := htext ▸ mem_map_of_mem hr
    rw [htexts] at hsome
    simp only [mem_cons, Option.some.injEq, not_mem_nil, or_false] at hsome ⊢
    tauto
  have hdistinct : Distinguished made := fun x hx y hy heq =>
    inj_on_of_nodup_map hdigests (hmem x hx) (hmem y hy) heq
  obtain ⟨hanswers, -, hcount, -, hsize, -⟩ :=
    reads_through_cache (holding "one\n") changes hdistinct
  exact ⟨hdistinct, by decide +kernel, hanswers, hcount.trans (by decide +kernel),
    hsize.trans (by decide +kernel)⟩

end Session

end FlowLock.Import
