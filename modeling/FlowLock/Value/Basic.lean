import FlowLock.Calendar.Moment
import FlowLock.Decimal.Double

/-!
# Values

The values that front matter is made of: scalars, lists and mappings whose
entries keep their order.  Keys are values too.  Parsers turn values into the
typed records of the other modules; what the compiler passes through unread
(steps, triggers, concurrency) stays a value from end to end.

A list or a mapping can hold itself.  Such a value is a *knot*: a system of
equations, one for each of the collections that hold themselves or hold one that
does, and the number of the collection that is meant.  `Value.opened` shows one layer
of it.
-/

namespace FlowLock

open List

inductive Value where
  | null
  | bool (b : Bool)
  | int (n : Int)
  | float (x : Double)
  | str (s : String)
  | date (d : Date)
  | moment (t : Moment)
  | bytes (bs : List UInt8)
  | list (items : List Value)
  | pair (key value : Value)
  | set (items : List Value)
  | map (entries : List (Value × Value))
  /-- The collection with a number, among collections that hold each other.  Inside
  them a knot without cells refers to one of them. -/
  | knot (cells : List (Nat × Value)) (cell : Nat)
deriving Repr, Inhabited

abbrev Entries := List (Value × Value)

namespace Value

/-! ## Knots -/

mutual

/-- A value out of a knot, with the knot in place of the references to its cells. -/
def tie (cells : List (Nat × Value)) : Value → Value
  | .list xs => .list (tieItems cells xs)
  | .pair k v => .pair (tie cells k) (tie cells v)
  | .map es => .map (tieEntries cells es)
  | .knot _ n => .knot cells n
  | v => v
termination_by structural v => v

def tieItems (cells : List (Nat × Value)) : List Value → List Value
  | [] => []
  | x :: xs => tie cells x :: tieItems cells xs
termination_by structural xs => xs

def tieEntries (cells : List (Nat × Value)) : List (Value × Value) → List (Value × Value)
  | [] => []
  | e :: es => tieEntry cells e :: tieEntries cells es
termination_by structural es => es

def tieEntry (cells : List (Nat × Value)) : Value × Value → Value × Value
  | (k, v) => (k, tie cells v)
termination_by structural e => e

end

/-- A value with its outermost layer open: a knot is the list or mapping that it
stands for. -/
def opened : Value → Value
  | .knot cells n => tie cells ((cells.lookup n).getD .null)
  | v => v

mutual

def isFinite : Value → Bool
  | .list xs => allFinite xs
  | .pair k v => isFinite k && isFinite v
  | .map es => allEntriesFinite es
  | .knot _ _ => false
  | _ => true
termination_by structural v => v

def allFinite : List Value → Bool
  | [] => true
  | x :: xs => isFinite x && allFinite xs
termination_by structural xs => xs

def allEntriesFinite : List (Value × Value) → Bool
  | [] => true
  | e :: es => entryFinite e && allEntriesFinite es
termination_by structural es => es

def entryFinite : Value × Value → Bool
  | (_, v) => isFinite v
termination_by structural e => e

end

/-! ## Equality and kinds -/

/-- The number that a value of a numeric kind denotes; booleans count as zero and
one. -/
def number? : Value → Option (Int ⊕ Double)
  | .bool b => some (.inl (if b then 1 else 0))
  | .int n => some (.inl n)
  | .float x =>
    match x.toInt? with
    | some n => some (.inl n)
    | none => some (.inr x)
  | _ => none

/-- Equality of numbers; what is no number equals none. -/
def sameNumber? : Option (Int ⊕ Double) → Option (Int ⊕ Double) → Bool
  | some (.inl n), some (.inl m) => n == m
  | some (.inr x), some (.inr y) => x.same y
  | _, _ => false

mutual

def same : Value → Value → Bool
  | .null, w => match w with | .null => true | _ => false
  | .str s, w => match w with | .str t => s == t | _ => false
  | .date d, w => match w with | .date e => d == e | _ => false
  | .moment t, w => match w with | .moment u => t.same u | _ => false
  | .bytes a, w => match w with | .bytes b => a == b | _ => false
  | .list xs, w => match w with | .list ys => sameAll xs ys | _ => false
  | .pair a b, w => match w with | .pair c d => same a c && same b d | _ => false
  | .set xs, w => match w with | .set ys => xs.length == ys.length && eachIn xs ys | _ => false
  | .map xs, w => match w with | .map ys => xs.length == ys.length && eachEntryIn xs ys | _ => false
  | .knot _ n, w => match w with | .knot _ m => n == m | _ => false
  | .bool b, w => sameNumber? (number? (.bool b)) w.number?
  | .int n, w => sameNumber? (number? (.int n)) w.number?
  | .float x, w => sameNumber? (number? (.float x)) w.number?
termination_by structural v => v

def sameAll : List Value → List Value → Bool
  | [], ys => ys.isEmpty
  | x :: xs, ys => match ys with | [] => false | y :: ys => same x y && sameAll xs ys
termination_by structural xs => xs

/-- Whether every item of the first list equals some item of the second. -/
def eachIn : List Value → List Value → Bool
  | [], _ => true
  | x :: xs, ys => ys.any (fun y => same x y) && eachIn xs ys
termination_by structural xs => xs

/-- Whether every entry of the first mapping equals some entry of the second. -/
def eachEntryIn : List (Value × Value) → List (Value × Value) → Bool
  | [], _ => true
  | x :: xs, ys => ys.any (fun y => sameEntry x y) && eachEntryIn xs ys
termination_by structural xs => xs

def sameEntry : Value × Value → Value × Value → Bool
  | (k, v), y => same k y.1 && same v y.2
termination_by structural x => x

end

/-- Whether a value counts as set: not null, not false, not zero, not empty. -/
def truthy : Value → Bool
  | .null => false
  | .bool b => b
  | .int n => n != 0
  | .float x => !x.isZero
  | .str s => !s.isEmpty
  | .bytes bs => !bs.isEmpty
  | .list xs => !xs.isEmpty
  | .set xs => !xs.isEmpty
  | .map es => !es.isEmpty
  | .date _ | .moment _ | .pair _ _ | .knot _ _ => true

def kindName (v : Value) : String :=
  match v.opened with
  | .null => "NoneType"
  | .bool _ => "bool"
  | .int _ => "int"
  | .float _ => "float"
  | .str _ => "str"
  | .date _ => "date"
  | .moment _ => "datetime"
  | .bytes _ => "bytes"
  | .list _ => "list"
  | .pair _ _ => "tuple"
  | .set _ => "set"
  | .map _ | .knot _ _ => "dict"

def isKey : Value → Bool
  | .list _ | .set _ | .map _ | .knot _ _ => false
  | .pair a b => isKey a && isKey b
  | _ => true

/-! ## Views of one kind -/

def isNull : Value → Bool
  | .null => true
  | _ => false

def isFalse : Value → Bool
  | .bool false => true
  | _ => false

def isTrue : Value → Bool
  | .bool true => true
  | _ => false

def str? : Value → Option String
  | .str s => some s
  | _ => none

/-- The number of an integer value; booleans are not integers. -/
def int? : Value → Option Int
  | .int n => some n
  | _ => none

def entries? (v : Value) : Option Entries :=
  match v.opened with
  | .map es => some es
  | _ => none

def items? (v : Value) : Option (List Value) :=
  match v.opened with
  | .list xs => some xs
  | _ => none

/-- What a value consists of, for the kinds that consist of something: items, keys,
characters or bytes. -/
def elements? (v : Value) : Option (List Value) :=
  match v.opened with
  | .list xs => some xs
  | .set xs => some xs
  | .pair a b => some [a, b]
  | .map es => some (es.map (·.1))
  | .str s => some (s.toList.map fun c => .str (String.singleton c))
  | .bytes bs => some (bs.map fun b => .int b.toNat)
  | _ => none

def isStr (v : Value) (s : String) : Bool :=
  match v with
  | .str t => s == t
  | _ => false

/-! ## Building -/

def strs (xs : List String) : Value := .list (xs.map .str)

def obj (fields : List (String × Value)) : Value :=
  .map (fields.map fun (k, v) => (.str k, v))

end Value

namespace Entries

def find? (es : Entries) (key : Value) : Option Value :=
  (List.find? (fun e => e.1.same key) es).map (·.2)

def get? (es : Entries) (key : String) : Option Value :=
  (List.find? (fun e => e.1.isStr key) es).map (·.2)

def getD (es : Entries) (key : String) : Value :=
  (es.get? key).getD .null

def has (es : Entries) (key : String) : Bool :=
  any es fun e => e.1.isStr key

def hasKey (es : Entries) (key : Value) : Bool :=
  any es fun e => e.1.same key

/-- The mapping with a value at a key: an old entry keeps its place and its key,
a new one goes to the end. -/
def put : Entries → Value → Value → Entries
  | [], key, value => [(key, value)]
  | (k, v) :: es, key, value =>
    if k.same key then (k, value) :: es else (k, v) :: put es key value

def set (es : Entries) (key : String) (value : Value) : Entries :=
  es.put (.str key) value

def erase (es : Entries) (key : String) : Entries :=
  filter (fun e => !e.1.isStr key) es

/-- The mapping that entries written one after the other give: of entries with
equal keys the first gives the key and the place, the last the value. -/
def ofWritten (es : Entries) : Entries :=
  foldl (fun acc e => put acc e.1 e.2) [] es

def update (es more : Entries) : Entries :=
  foldl (fun acc e => put acc e.1 e.2) es more

end Entries

end FlowLock
