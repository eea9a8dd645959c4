import FlowLock.Import.Cache
import FlowLock.Proofs.Path

/-!
# Reading through the cache

What a read through the cache does to it, and when it gives the document that is in the
file.  A cache kept from earlier reads may hold the document of a text that is no longer
there; it is recognised by its digest, and `Cache.Agrees` says that this suffices for the
files of a tree.
-/

namespace FlowLock.Import

open List

def documentAt (tree : FileTree) (path : Path) : Outcome Document :=
  match tree.readText path with
  | .error problem => .error (.ofFile path.text .importUnreadable problem)
  | .ok content => Document.split (some path.text) false content

namespace Cache

def paths (cache : Cache) : List Path := cache.entries.map (·.1)

/-- The cache is right about a tree: what it keeps under the digest of the text that a file
has now is the document of that text. -/
def Agrees (cache : Cache) (tree : FileTree) : Prop :=
  ∀ path cached content, cache.get? path = some cached → tree.readText path = .ok content →
    cached.digest = Sha256.hexOfText content →
    Document.split (some path.text) false content = .ok cached.document

theorem agrees_empty (tree : FileTree) : empty.Agrees tree := by
  intro path cached content hget
  simp [get?, empty] at hget

/-! ## Entries -/

variable {path : Path}

theorem get?_eq_none {cache : Cache} (h : path ∉ cache.paths) : cache.get? path = none := by
  simp only [get?, Option.map_eq_none_iff, find?_eq_none]
  intro e he
  have : e.1 ≠ path := fun heq => h (mem_map.mpr ⟨e, he, heq⟩)
  simpa using this

variable {cached : Cached}

theorem putEntry_of_not_mem {es : List (Path × Cached)} (h : path ∉ es.map (·.1)) :
    putEntry path cached es = es ++ [(path, cached)] := by
  induction es with
  | nil => rfl
  | cons e es ih =>
    simp only [map_cons, mem_cons, not_or] at h
    have he : (e.1 == path) = false := by simpa using Ne.symm h.1
    simp [putEntry, he, ih h.2]

theorem get?_put (cache : Cache) (path : Path) (cached : Cached) (other : Path) :
    (cache.put path cached).get? other = if path = other then some cached else cache.get? other := by
  have hfind : ∀ es : List (Path × Cached),
      ((putEntry path cached es).find? fun e => e.1 == other).map (·.2) =
        if path = other then some cached else (es.find? fun e => e.1 == other).map (·.2) := by
    intro es
    induction es with
    | nil => by_cases h : path = other <;> simp [putEntry, h]
    | cons e es ih =>
      by_cases he : e.1 = path
      · by_cases h : path = other <;> simp [putEntry, he, h]
      · have hkeep : (e.1 == path) = false := by simpa using he
        rw [putEntry, hkeep, if_neg Bool.false_ne_true]
        by_cases h : e.1 = other
        · have hne : ¬path = other := fun heq => he (h.trans heq.symm)
          simp [h, hne]
        · have hskip : (e.1 == other) = false := by simpa using h
          rw [find?_cons, hskip, ih, find?_cons, hskip]
  exact hfind cache.entries

/-! ## Reads -/

/-- What a successful read of a resolved path does. -/
inductive ReadAs (cache : Cache) (tree : FileTree) (path : Path) (cached : Cached) : Cache → Prop
  /-- The document was kept under the digest of the text. -/
  | hit {content : String} (htext : tree.readText path = .ok content)
      (hget : cache.get? path = some cached)
      (hdigest : cached.digest = Sha256.hexOfText content) :
      ReadAs cache tree path cached { cache with hits := cache.hits + 1 }
  /-- The text was taken apart, and its document is kept. -/
  | miss {content : String} (htext : tree.readText path = .ok content)
      (hparse : parse path content = .ok cached)
      (hget : ∀ old, cache.get? path = some old → old.digest ≠ Sha256.hexOfText content) :
      ReadAs cache tree path cached
        ({ cache with misses := cache.misses + 1 }.put path cached)

theorem readAs_of_read {cache after : Cache} {tree : FileTree}
    (hpath : Path.resolve tree.workdir path = path)
    (h : cache.read tree path = (.ok cached, after)) : ReadAs cache tree path cached after := by
  simp only [read, hpath] at h
  split at h
  · simp at h
  · next content htext =>
    split at h
    · next kept hkept =>
      simp only [Prod.mk.injEq, Except.ok.injEq] at h
      obtain ⟨rfl, rfl⟩ := h
      obtain ⟨hget, hdigest⟩ := Option.filter_eq_some_iff.mp hkept
      exact .hit htext hget (by simpa using hdigest)
    · next hkept =>
      split at h
      · next parsed hparse =>
        simp only [Prod.mk.injEq, Except.ok.injEq] at h
        obtain ⟨rfl, rfl⟩ := h
        refine .miss htext hparse ?_
        intro old hold heq
        simp [hold, heq] at hkept
      · simp at h

theorem split_of_parse {content : String} (h : parse path content = .ok cached) :
    Document.split (some path.text) false content = .ok cached.document ∧
      cached.digest = Sha256.hexOfText content := by
  unfold parse at h
  cases hsplit : Document.split (some path.text) false content with
  | error e =>
    rw [hsplit] at h
    cases h
  | ok document =>
    rw [hsplit] at h
    cases h
    exact ⟨rfl, rfl⟩

namespace ReadAs

variable {cache after : Cache} {tree : FileTree} {path : Path} {cached : Cached}

theorem documentAt_eq (h : ReadAs cache tree path cached after) (hagrees : cache.Agrees tree) :
    documentAt tree path = .ok cached.document := by
  cases h with
  | hit htext hget hdigest => simpa [documentAt, htext] using hagrees _ _ _ hget htext hdigest
  | miss htext hparse _ => simpa [documentAt, htext] using (split_of_parse hparse).1

theorem agrees (h : ReadAs cache tree path cached after) (hagrees : cache.Agrees tree) :
    after.Agrees tree := by
  cases h with
  | hit _ _ _ => exact hagrees
  | @miss content htext hparse _ =>
    intro other kept text hget hread hdigest
    rw [get?_put] at hget
    split at hget
    · next heq =>
      subst heq
      obtain rfl : cached = kept := by simpa using hget
      obtain rfl : content = text := by simpa [htext] using hread
      exact (split_of_parse hparse).1
    · exact hagrees other kept text hget hread hdigest

theorem count (h : ReadAs cache tree path cached after) :
    after.hits + after.misses = cache.hits + cache.misses + 1 := by
  cases h with
  | hit _ _ _ => simp only; omega
  | miss _ _ _ => simp only [put]; omega

theorem of_not_mem (h : ReadAs cache tree path cached after) (hpath : path ∉ cache.paths) :
    after.hits = cache.hits ∧ after.paths = cache.paths ++ [path] := by
  cases h with
  | hit _ hget _ => simp [get?_eq_none hpath] at hget
  | miss _ _ _ => exact ⟨rfl, by simp [paths, put, putEntry_of_not_mem hpath]⟩

end ReadAs

end Cache

end FlowLock.Import
