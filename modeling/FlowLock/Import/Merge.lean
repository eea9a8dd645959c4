import FlowLock.Value.Basic

/-!
# Merging settings

How the settings of an imported document come below those of its importer: what
the importer has stays, mappings merge key by key, and lists get the items they
lack.
-/

namespace FlowLock.Import

def missingItems (current more : List Value) : List Value :=
  more.filter fun item => !current.any fun other => other.same item

def missingEntries (current more : Entries) : Entries :=
  List.filter (fun e => !current.hasKey e.1) more

mutual

/-- A value with another of the same key laid below it.  Of a knot only the outermost
layer is laid below. -/
def mergeValue : Value → Value → Value
  | .map more, current =>
    match current.opened with
    | .map es => .map (mergeEntries more es)
    | _ => current
  | .list more, current =>
    match current.opened with
    | .list items => .list (items ++ missingItems items more)
    | _ => current
  | .knot cells n, current =>
    match current.opened, (Value.knot cells n).opened with
    | .map es, .map more => .map (es ++ missingEntries es more)
    | .list items, .list more => .list (items ++ missingItems items more)
    | _, _ => current
  | _, current => current
termination_by structural more => more

/-- Entries laid one by one below a mapping. -/
def mergeEntries : List (Value × Value) → Entries → Entries
  | [], es => es
  | e :: more, es => mergeEntries more (mergeEntry e es)
termination_by structural more => more

/-- An entry laid below a mapping: a new key goes to the end. -/
def mergeEntry : Value × Value → Entries → Entries
  | (key, value), es =>
    match es.find? key with
    | none => es ++ [(key, value)]
    | some current => es.put key (mergeValue value current)
termination_by structural e => e

end

def merge (base extra : Entries) : Entries := mergeEntries extra base

end FlowLock.Import
