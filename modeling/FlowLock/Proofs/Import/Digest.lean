import FlowLock.Proofs.Import.LockName
import FlowLock.Proofs.Json.Payload

/-!
# What a digest tells

The digest of a document is taken of the canonical text of its settings, its body and its
imports.  That text is read as the value with its keys in order, and two values are the same with
their keys in order exactly when they are equal up to the order of keys.  So the text tells
everything that it covers but the order of keys, and the digest as much as a digest can.
-/

namespace FlowLock

open Import Outcome List Table Value Json Sha256

namespace Value

/-- The values that settings are made of, as far as JSON tells them apart: no integer is too
long, no text splits a pair, and the keys of a mapping are distinct texts. -/
inductive IsSettings : Value → Prop
  | null : IsSettings .null
  | bool (b : Bool) : IsSettings (.bool b)
  | int {n : Int} (h : Yaml.digitCount n ≤ Text.maxDecimalDigits) : IsSettings (.int n)
  | str {s : String} (h : Text.IsWhole s) : IsSettings (.str s)
  | list {xs : List Value} (h : ∀ x ∈ xs, IsSettings x) : IsSettings (.list xs)
  | obj {t : Table Value} (hkeys : ∀ e ∈ t, Text.IsWhole e.1) (hnodup : (keys t).Nodup)
      (h : ∀ e ∈ t, IsSettings e.2) : IsSettings (.obj t)

/-- Equality up to the order of keys, at every depth. -/
inductive EqUpToOrder : Value → Value → Prop
  | same (v : Value) : EqUpToOrder v v
  | list {xs ys : List Value} (hlength : xs.length = ys.length)
      (h : ∀ (i : Nat) x y, xs[i]? = some x → ys[i]? = some y → EqUpToOrder x y) :
      EqUpToOrder (.list xs) (.list ys)
  | obj {t t' : Table Value} (hnodup : (keys t).Nodup) (hnodup' : (keys t').Nodup)
      (hkeys : ∀ key, key ∈ keys t ↔ key ∈ keys t')
      (h : ∀ key v v', get? t key = some v → get? t' key = some v' → EqUpToOrder v v') :
      EqUpToOrder (.obj t) (.obj t')

variable {v w : Value} {t : Table Value}

theorem IsSettings.isPayload (hv : v.IsSettings) : v.IsPayload := by
  induction hv with
  | null => exact .null
  | bool b => exact .bool b
  | int h => exact .int h
  | str h => exact .str h
  | list _ ih => exact .list ih
  | obj hkeys _ _ ih => exact .obj hkeys ih

theorem obj_injective {t' : Table Value} (h : obj t = obj t') : t = t' := by
  refine map_injective_iff.mpr (fun e e' he => ?_) (map.inj h)
  obtain ⟨hkey, hvalue⟩ := Prod.mk.inj he
  exact Prod.ext (str.inj hkey) hvalue

theorem IsSettings.of_obj (h : (Value.obj t).IsSettings) : ∀ e ∈ t, e.2.IsSettings := by
  generalize hv : Value.obj t = v at h
  cases h with
  | obj _ _ h => exact obj_injective hv ▸ h
  | _ => cases hv

theorem ordered_obj_eq_sorted (t : Table Value) :
    ordered (.obj t) = .obj (sorted (t.map fun e => (e.1, ordered e.2))) := by
  rw [ordered_obj, sorted, sorted,
    Text.sortOn_map (f := fun e : String × Value => (e.1, ordered e.2)) (fun e => e.1) fun _ => rfl]

theorem ordered_obj_eq_iff {t' : Table Value} (hnodup : (keys t).Nodup)
    (hnodup' : (keys t').Nodup) :
    ordered (.obj t) = ordered (.obj t') ↔
      ∀ key, (get? t key).map ordered = (get? t' key).map ordered := by
  constructor
  · intro h key
    rw [ordered_obj, ordered_obj] at h
    have hsame := congrArg (get? · key) (obj_injective h)
    simpa only [get?_map, get?_sorted] using hsame
  · intro h
    have hkeys : ∀ t : Table Value,
        keys (List.map (fun e => (e.1, ordered e.2)) t) = keys t :=
      fun _ => map_map
    rw [ordered_obj_eq_sorted, ordered_obj_eq_sorted]
    refine congrArg obj (Shuffled.of_get? ?_ ?_ fun key => ?_).sorted_eq
    · rwa [hkeys]
    · rwa [hkeys]
    · rw [get?_map, get?_map, h key]

theorem EqUpToOrder.ordered_eq (h : v.EqUpToOrder w) : v.ordered = w.ordered := by
  induction h with
  | same => rfl
  | @list xs ys hlength _ ih =>
    rw [ordered_list, ordered_list]
    refine congrArg Value.list (ext_getElem (by simpa using hlength) fun i hi hi' => ?_)
    rw [length_map] at hi hi'
    rw [getElem_map, getElem_map]
    exact ih i _ _ (getElem?_eq_getElem hi) (getElem?_eq_getElem hi')
  | @obj t t' hnodup hnodup' hkeys _ ih =>
    refine (ordered_obj_eq_iff hnodup hnodup').mpr fun key => ?_
    have hnone := not_congr (hkeys key)
    rw [← get?_eq_none_iff, ← get?_eq_none_iff] at hnone
    cases hv : get? t key with
    | none => rw [hnone.mp hv]
    | some v =>
      cases hv' : get? t' key with
      | none => rw [hnone.mpr hv'] at hv; cases hv
      | some v' => exact congrArg some (ih key v v' hv hv')

theorem eqUpToOrder_of_ordered (hv : v.IsSettings) (hw : w.IsSettings)
    (h : v.ordered = w.ordered) : v.EqUpToOrder w := by
  induction hv generalizing w with
  | null | bool _ | int _ | str _ =>
    cases hw with
    | list => rw [ordered_list] at h; cases h
    | obj => rw [ordered_obj] at h; cases h
    | _ => cases h <;> exact .same _
  | @list xs _ ih =>
    cases hw with
    | @list ys hys =>
      rw [ordered_list, ordered_list] at h
      have hitems := list.inj h
      have hlength : xs.length = ys.length := by simpa using congrArg length hitems
      refine .list hlength fun i x y hx hy => ?_
      have hi := congrArg (·[i]?) hitems
      simp only [getElem?_map, hx, hy, Option.map_some, Option.some.injEq] at hi
      exact ih x (mem_of_getElem? hx) (hys y (mem_of_getElem? hy)) hi
    | obj => rw [ordered_list, ordered_obj] at h; cases h
    | _ => rw [ordered_list] at h; cases h
  | @obj t _ hnodup _ ih =>
    cases hw with
    | list => rw [ordered_obj, ordered_list] at h; cases h
    | @obj t' _ hnodup' ht' =>
      have hget := (ordered_obj_eq_iff hnodup hnodup').mp h
      refine .obj hnodup hnodup' (fun key => ?_) fun key v v' hv hv' => ?_
      · rw [← not_iff_not, ← get?_eq_none_iff, ← get?_eq_none_iff,
          ← Option.map_eq_none_iff (f := ordered), hget, Option.map_eq_none_iff]
      · have hsame := hget key
        rw [hv, hv'] at hsame
        exact ih (key, v) (mem_of_get? hv) (ht' (key, v') (mem_of_get? hv'))
          (Option.some.inj hsame)
    | _ => rw [ordered_obj] at h; cases h

end Value

namespace Json

theorem encode?_canonical_eq_iff {v w : Value} {text text' : String} (hv : v.IsPayload)
    (hw : w.IsPayload) (htext : encode? canonical v = some text)
    (htext' : encode? canonical w = some text') : text = text' ↔ v.ordered = w.ordered := by
  have hcompact := encodeAt?_ordered hv.isJson htext
  have hcompact' := encodeAt?_ordered hw.isJson htext'
  have hread : ∀ {v : Value} {text : String}, v.IsPayload →
      encodeAt? compact 0 v.ordered = some text → decode? text = some v.ordered :=
    fun hv h => (decode?_of_isPayload isSpaced_compact rfl (isPayload_ordered hv) h).2
  constructor
  · rintro rfl
    exact Option.some.inj ((hread hv hcompact).symm.trans (hread hw hcompact'))
  · intro heq
    rw [heq] at hcompact
    exact Option.some.inj (hcompact.symm.trans hcompact')

end Json

namespace Imports

/-- What the digest covers of imports: the names and digests of the documents in order, and what
is taken from elsewhere. -/
def covered (i : Imports) : List (String × String) × List String :=
  (i.files.map fun f => (f.shown, f.digest), i.remotes ++ i.repositories)

/-- Documents of which the digest covers the same, up to the order of keys. -/
structure Equivalent (settings settings' : Entries) (imports imports' : Option Imports)
    (body body' : String) : Prop where
  settings : (map settings).EqUpToOrder (.map settings')
  body : body = body'
  imports : imports.map covered = imports'.map covered

/-- The part of a payload for what it covers of imports. -/
def coveredEntries : Option (List (String × String) × List String) → Table Value
  | none => []
  | some c =>
    [("imports", .list (c.1.map fun f => .list [.str f.1, .str f.2])), ("remote", .strs c.2)]

variable {settings settings' : Entries} {imports imports' : Option Imports} {body body' : String}

theorem payload_eq : payload settings imports body =
    .obj ([("frontmatter", .map settings), ("markdown", .str body)] ++
      coveredEntries (imports.map covered)) := by
  cases imports with
  | none => rfl
  | some i =>
    rw [payload, Option.map_some, coveredEntries, covered, map_map]
    rfl

theorem nodup_keys_payload (c : Option (List (String × String) × List String)) (v w : Value) :
    (keys ([("frontmatter", v), ("markdown", w)] ++ coveredEntries c)).Nodup := by
  cases c <;> simp [Table.keys, coveredEntries]

theorem ordered_strs (texts : List String) : (strs texts).ordered = .strs texts := by
  rw [strs, ordered_list, map_map]
  rfl

/-- What a payload covers of imports is told by its parts for them. -/
theorem coveredEntries_inj {c c' : Option (List (String × String) × List String)}
    (hfiles : (get? (coveredEntries c) "imports").map ordered =
      (get? (coveredEntries c') "imports").map ordered)
    (hremote : (get? (coveredEntries c) "remote").map ordered =
      (get? (coveredEntries c') "remote").map ordered) : c = c' := by
  have hordered : ∀ fs : List (String × String),
      (list (fs.map fun f => .list [.str f.1, .str f.2])).ordered =
        .list (fs.map fun f => .list [.str f.1, .str f.2]) := by
    intro fs
    rw [ordered_list, map_map]
    rfl
  match c, c' with
  | none, none => rfl
  | none, some _ => cases hfiles
  | some _, none => cases hfiles
  | some (fs, rs), some (fs', rs') =>
    have hfs := Option.some.inj hfiles
    have hrs := Option.some.inj hremote
    rw [hordered, hordered] at hfs
    rw [ordered_strs, ordered_strs] at hrs
    have hfs : fs = fs' := by
      refine map_injective_iff.mpr (fun f f' hf => ?_) (list.inj hfs)
      simpa [Prod.ext_iff] using hf
    have hrs : rs = rs' := map_injective_iff.mpr (fun _ _ => str.inj) (list.inj hrs)
    rw [hfs, hrs]

/-- **What payloads have in common** when they are the same up to the order of keys. -/
theorem ordered_payload_eq_iff (h : (payload settings imports body).IsSettings)
    (h' : (payload settings' imports' body').IsSettings) :
    (payload settings imports body).ordered = (payload settings' imports' body').ordered ↔
      Equivalent settings settings' imports imports' body body' := by
  rw [payload_eq] at h h' ⊢
  rw [payload_eq]
  constructor
  · intro heq
    have hget := (ordered_obj_eq_iff (nodup_keys_payload ..) (nodup_keys_payload ..)).mp heq
    exact
      { settings := Value.eqUpToOrder_of_ordered (h.of_obj _ mem_cons_self)
          (h'.of_obj _ mem_cons_self) (Option.some.inj (hget "frontmatter"))
        body := str.inj (Option.some.inj (hget "markdown"))
        imports := coveredEntries_inj (hget "imports") (hget "remote") }
  · intro heq
    rw [ordered_obj_eq_sorted, ordered_obj_eq_sorted, heq.imports, heq.body,
      map_append, map_append, map_cons, map_cons, heq.settings.ordered_eq]
    rfl

theorem digest_of_mem_files {tree : FileTree} {cache : Cache} {inlining : Bool} {source : Path}
    {r : Resolution} (h : resolve tree cache inlining source settings = .ok r) :
    ∀ file ∈ r.imports.files, ∃ content, tree.readText file.path = .ok content ∧
      file.digest = hexOfText content := by
  refine forall_files_of_resolve h fun inlined hentered => ?_
  obtain ⟨cached, text, hread, -, rfl⟩ := hentered.loaded
  cases hread with
  | hit htext _ hdigest => exact ⟨_, htext, hdigest⟩
  | miss htext hparse _ => exact ⟨_, htext, (Cache.split_of_parse hparse).2⟩

def sampleTable : Table Value := [("B", .str "b\n"), ("A", .str "😀")]

def splitPair : String := String.ofList [Text.half 0xd83d, Text.half 0xde00]

end Imports

end FlowLock
