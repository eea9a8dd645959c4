import FlowLock.Decimal.Shortest
import FlowLock.Text.Quoted
import FlowLock.Value.Basic

/-!
# The text of a value

Two written forms.  The *literal* form shows a value with all its quotes and
brackets, as messages do when they say what they got.  The *plain* form is the
same except that a text stands for itself and a day or moment is written the way
people write it; it is what an environment variable takes.

In both, a collection inside itself is written as three dots between its brackets.
-/

namespace FlowLock.Value

mutual

def literalWith (knot : List (Nat × Value) → Nat → String) : Value → String
  | .null => "None"
  | .bool b => if b then "True" else "False"
  | .int n => toString n
  | .float x => x.text Double.standard
  | .str s => Text.quoted s
  | .date d => d.literal
  | .moment t => t.literal
  | .bytes bs => Text.quotedBytes bs
  | .list xs => "[" ++ ", ".intercalate (literalsWith knot xs) ++ "]"
  | .pair k v => "(" ++ literalWith knot k ++ ", " ++ literalWith knot v ++ ")"
  | .set [] => "set()"
  | .set xs => "\x7b" ++ ", ".intercalate (literalsWith knot xs) ++ "\x7d"
  | .map es => "\x7b" ++ ", ".intercalate (entryLiteralsWith knot es) ++ "\x7d"
  | .knot cells n => knot cells n
termination_by structural v => v

def literalsWith (knot : List (Nat × Value) → Nat → String) : List Value → List String
  | [] => []
  | x :: xs => literalWith knot x :: literalsWith knot xs
termination_by structural xs => xs

def entryLiteralsWith (knot : List (Nat × Value) → Nat → String) : List (Value × Value) → List String
  | [] => []
  | e :: es => entryLiteralWith knot e :: entryLiteralsWith knot es
termination_by structural es => es

def entryLiteralWith (knot : List (Nat × Value) → Nat → String) : Value × Value → String
  | (k, v) => literalWith knot k ++ ": " ++ literalWith knot v
termination_by structural e => e

end

def dots : Option Value → String
  | some (.list _) => "[...]"
  | _ => "\x7b...\x7d"

/-- The literal form of a cell of a knot; `outer` are the cells around it.  There are
no more of them than cells, which bounds the recursion. -/
def cellLiteral (cells : List (Nat × Value)) : Nat → List Nat → Nat → String
  | 0, _, n => dots (cells.lookup n)
  | bound + 1, outer, n =>
    if outer.contains n then dots (cells.lookup n)
    else ((cells.lookup n).getD .null).literalWith fun _ m => cellLiteral cells bound (n :: outer) m

def literal (v : Value) : String :=
  v.literalWith fun cells n => cellLiteral cells cells.length [] n

def plain : Value → String
  | .str s => s
  | .date d => d.text
  | .moment t => t.text
  | v => v.literal

end FlowLock.Value
