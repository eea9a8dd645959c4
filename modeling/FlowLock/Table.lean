import FlowLock.Text.Order

/-!
# Tables

A table holds values under text keys, in the order in which the keys were first
written.  Environments, outputs, inputs and registries are tables.
-/

namespace FlowLock

open List

/-- Values under text keys, in order. -/
abbrev Table (α : Type) := List (String × α)

namespace Table

variable {α : Type}

def get? (t : Table α) (key : String) : Option α :=
  (find? (fun e => e.1 == key) t).map (·.2)

def has (t : Table α) (key : String) : Bool :=
  any t fun e => e.1 == key

def keys (t : Table α) : List String := map (·.1) t

def values (t : Table α) : List α := map (·.2) t

/-- The table with a value at a key: an old key keeps its place, a new one goes to
the end. -/
def set : Table α → String → α → Table α
  | [], key, value => [(key, value)]
  | (k, v) :: t, key, value =>
    if k == key then (k, value) :: t else (k, v) :: set t key value

def setNew (t : Table α) (key : String) (value : α) : Table α :=
  if t.has key then t else t ++ [(key, value)]

/-- What every entry of the second table gives, at the keys that have no value yet. -/
def addNew {β : Type} (f : β → α) (t : Table α) (more : Table β) : Table α :=
  foldl (fun acc e => setNew acc e.1 (f e.2)) t more

/-- Every entry of the second table written into the first. -/
def update (t more : Table α) : Table α :=
  foldl (fun acc e => set acc e.1 e.2) t more

def ofWritten (es : List (String × α)) : Table α := update [] es

def sorted (t : Table α) : Table α := Text.sortOn (·.1) t

end Table

end FlowLock
