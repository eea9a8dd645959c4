import FlowLock.Error
import FlowLock.Value.Literal

/-!
# Triggers

The events that start a workflow, as a mapping from their names to their settings.
One name, or a list of names, stands for events without settings.
-/

namespace FlowLock.Trigger

def refusal (fault : SchemaFault) : Error := .schema "on" fault

def addName (events : Entries) (item : Value) : Outcome Entries :=
  match item with
  | .str name => .ok (events.set name .null)
  | _ => .error (refusal .triggerNoString)

def parse : Value → Outcome Entries
  | .null => .error (refusal .missingTrigger)
  | .str name => .ok [(.str name, .null)]
  | .list items => items.foldlM addName []
  | .map es => .ok (.ofWritten (es.map fun e => (.str e.1.plain, e.2)))
  | v => .error (.mustBe "on" .stringArrayOrObject (some v.kindName))

end FlowLock.Trigger
