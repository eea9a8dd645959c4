/-!
# Order and distinctness of texts

Texts are compared by code points.  Sorting is by insertion, which keeps equal
keys in the order they came in and reduces by evaluation.
-/

namespace FlowLock.Text

def insertOn {α : Type} (key : α → String) (x : α) : List α → List α
  | [] => [x]
  | y :: ys => if key x < key y then x :: y :: ys else y :: insertOn key x ys

/-- A list in the order of a text key; items with equal keys keep their order. -/
def sortOn {α : Type} (key : α → String) (xs : List α) : List α :=
  xs.foldl (fun done x => insertOn key x done) []

def sorted (xs : List String) : List String := sortOn id xs

/-- The first list followed by the new texts of the second, each once. -/
def union (xs ys : List String) : List String :=
  ys.foldl (fun seen y => if seen.contains y then seen else seen ++ [y]) xs

/-- A list of texts without repetitions, each at its first place. -/
def distinct (xs : List String) : List String := union [] xs

end FlowLock.Text
