import FlowLock.Proofs.Setting.Reorder

/-!
# Places in a value

A value that is written is a tree of mappings and lists.  A place in it is a way from its root:
from a mapping to what stands at a key, from a list to the item at an index.
-/

namespace FlowLock

open Table List

inductive Value.Turn where
  | key (name : String)
  | item (index : Nat)

namespace Value

def at? : Value → List Turn → Option Value
  | v, [] => some v
  | .map es, .key name :: place => (Entries.get? es name).bind fun v => v.at? place
  | .list xs, .item index :: place => xs[index]?.bind fun v => v.at? place
  | _, _ :: _ => none

def put : Value → List Turn → Value → Value
  | _, [], x => x
  | .map es, .key name :: place, x =>
    .map (es.map fun e => if e.1.isStr name then (e.1, e.2.put place x) else e)
  | .list xs, .item index :: place, x => .list (xs.modify index fun v => v.put place x)
  | v, _ :: _, _ => v

theorem at?_obj (t : Table Value) (name : String) (place : List Turn) :
    (obj t).at? (.key name :: place) = (t.get? name).bind fun v => v.at? place := by
  rw [obj, at?, Entries.get?_map_str]

theorem at?_obj_key (t : Table Value) (name : String) : (obj t).at? [.key name] = t.get? name := by
  rw [at?_obj]
  cases t.get? name <;> rfl

theorem at?_obj_of_not_mem {name : String} {before : Table Value} (h : name ∉ keys before)
    (v : Value) (after : Table Value) (place : List Turn) :
    (obj (before ++ (name, v) :: after)).at? (.key name :: place) = v.at? place := by
  rw [at?_obj, get?_append, get?_eq_none_iff.mpr h, get?_cons, if_pos rfl]
  rfl

theorem at?_list_last (xs : List Value) (v : Value) (place : List Turn) :
    (list (xs ++ [v])).at? (.item xs.length :: place) = v.at? place := by
  rw [at?, getElem?_concat_length]
  rfl

/-! ## Something else at a place -/

theorem map_of_not_mem {name : String} {t : Table Value} (h : name ∉ keys t)
    (f : String × Value → String × Value) :
    (t.map fun e => if e.1 = name then f e else e) = t := by
  refine (map_congr_left fun e he => ?_).trans (map_id t)
  exact if_neg fun heq : e.1 = name => h (heq ▸ mem_map_of_mem he)

theorem put_obj (t : Table Value) (name : String) (place : List Turn) (x : Value) :
    (obj t).put (.key name :: place) x =
      obj (t.map fun e => if e.1 = name then (e.1, e.2.put place x) else e) := by
  rw [obj, obj, put, map_map, map_map]
  congr 1
  refine map_congr_left fun e _ => ?_
  by_cases h : e.1 = name
  · simp [isStr, h]
  · simp [isStr, h, Ne.symm h]

/-! ## A text in a value -/

/-- A value around a text: the text stands at a place, and another text put there makes the
value around that text. -/
structure Around (place : List Turn) (v : String → Value) : Prop where
  at? : ∀ text, (v text).at? place = some (.str text)
  put : ∀ text last, (v text).put place (.str last) = v last

namespace Around

variable {place : List Turn} {v : String → Value} {name : String}

theorem key (h : Around place v) {before after : Table Value} (hbefore : name ∉ keys before)
    (hafter : name ∉ keys after) :
    Around (.key name :: place) fun text => .obj (before ++ (name, v text) :: after) where
  at? text := (at?_obj_of_not_mem hbefore _ _ _).trans (h.at? text)
  put text last := by
    rw [put_obj, map_append, map_cons, map_of_not_mem hbefore, map_of_not_mem hafter,
      if_pos rfl, h.put]

theorem sorted {rest : Table Value} (hrest : name ∉ keys rest) :
    Around [.key name] fun text => .obj (sorted ((name, .str text) :: rest)) where
  at? text := by
    rw [at?_obj_key, get?_sorted, get?_cons, if_pos rfl]
  put text last := by
    have hkeys : ∀ e : String × Value,
        e.1 = (if e.1 = name then (e.1, e.2.put [] (.str last)) else e).1 := by
      intro e
      split <;> rfl
    rw [put_obj, Table.sorted, ← Text.sortOn_map _ hkeys, map_cons, map_of_not_mem hrest,
      if_pos rfl]
    rfl

theorem last (h : Around place v) (xs : List Value) :
    Around (.item xs.length :: place) fun text => .list (xs ++ [v text]) where
  at? text := (at?_list_last xs _ _).trans (h.at? text)
  put text last := by
    have hmodify : ∀ x, (xs ++ [x]).modify xs.length (·.put place (.str last)) =
        xs ++ [x.put place (.str last)] := by
      intro x
      induction xs with
      | nil => rfl
      | cons y xs ih => exact congrArg (y :: ·) ih
    rw [Value.put, hmodify, h.put]

end Around

end Value

end FlowLock
