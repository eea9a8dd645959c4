import FlowLock.Text.Base64
import FlowLock.Text.CaseMap
import FlowLock.Text.Number
import FlowLock.Value.Basic
import FlowLock.Yaml.Problem
import FlowLock.Yaml.Schema

/-!
# What tags make of scalars

The tag of a node says what is made of it, and the text of a scalar says which value
it is.  A text that does not have the form of its tag has no value.
-/

namespace FlowLock.Yaml

open Text

inductive Maker where
  | null
  | bool
  | int
  | float
  | str
  | binary
  | timestamp
  | seq
  | map
  | set
  | ordered
deriving Repr, DecidableEq

def Maker.ofTag? (tag : String) : Option Maker :=
  [(Tag.null, .null), (Tag.bool, .bool), (Tag.int, .int), (Tag.float, .float), (Tag.str, .str),
   (Tag.binary, .binary), (Tag.timestamp, .timestamp), (Tag.seq, .seq), (Tag.map, .map),
   (Tag.set, .set), (Tag.omap, .ordered), (Tag.pairs, .ordered)].lookup tag

def Maker.isCollection : Maker → Bool
  | .seq | .map | .set | .ordered => true
  | _ => false

/-- A sign at the start, as a factor, and the rest. -/
def signed : List Char → Int × List Char
  | '-' :: cs => (-1, cs)
  | '+' :: cs => (1, cs)
  | cs => (1, cs)

def readBool? (text : String) : Option Bool :=
  [("yes", true), ("no", false), ("true", true), ("false", false), ("on", true),
   ("off", false)].lookup (lower text)

/-- Parts of a sexagesimal number put together, the last one counting once. -/
def sexagesimal (parts : List Int) : Int :=
  parts.foldl (fun n part => n * 60 + part) 0

/-- The integer that is written without a sign: binary, hexadecimal, octal,
sexagesimal or decimal. -/
def readUnsigned? : List Char → Option Int
  | [] => none
  | ['0'] => some 0
  | '0' :: 'b' :: rest => readInt? 2 (String.ofList rest)
  | '0' :: 'x' :: rest => readInt? 16 (String.ofList rest)
  | '0' :: rest => readInt? 8 (String.ofList ('0' :: rest))
  | cs =>
    if cs.contains ':' then
      ((splitList ':' cs).mapM fun part => readInt? 10 (String.ofList part)).map
        sexagesimal
    else readInt? 10 (String.ofList cs)

def readInt? (text : String) : Option Int :=
  let (sign, cs) := signed (text.toList.filter (· != '_'))
  (readUnsigned? cs).map (sign * ·)

/-- The sum of the parts of a sexagesimal double, the last one counting once; each
step is rounded. -/
def sexagesimalDouble (parts : List Double) : Double :=
  (parts.reverse.foldl (fun (acc : Double × Nat) part =>
    (acc.1.add (part.mul (Double.ofInt acc.2)), acc.2 * 60)) (Double.zero false, 1)).1

/-- The sign of a number and what follows it, in lower case and without grouping
marks. -/
def floatParts (text : String) : Int × List Char :=
  signed (lower (String.ofList (text.toList.filter (· != '_')))).toList

def isNanMark (text : String) : Bool := (floatParts text).2 == ".nan".toList

def readFloat? (text : String) : Option Double :=
  let (sign, cs) := floatParts text
  let withSign (x : Double) : Double := if sign < 0 then x.neg else x
  let body := String.ofList cs
  if body.isEmpty then none
  else if body == ".inf" then some (.infinite (sign < 0))
  else if isNanMark text then some .nan
  else if cs.contains ':' then
    ((splitList ':' cs).mapM fun part => Double.ofText? (String.ofList part)).map
      fun parts => withSign (sexagesimalDouble parts)
  else (Double.ofText? body).map withSign

/-- The day or moment that a scalar writes; a line feed may end the text. -/
def readTimestamp? (text : String) : Option Value :=
  let cs := text.toList
  let cs := if cs.getLast? == some '\n' then cs.dropLast else cs
  match Timestamp.read? cs with
  | some (.day d) => if d.isValid then some (.date d) else none
  | some (.moment t) => if t.isValid then some (.moment t) else none
  | none => none

/-- The longest run of characters outside ASCII from the first such character on,
as its place and length. -/
def foreignRun? (cs : List Char) : Option (Char × Nat × Nat) :=
  let before := (cs.takeWhile fun c => c.toNat < 0x80).length
  match cs.drop before with
  | [] => none
  | c :: rest => some (c, before, 1 + (rest.takeWhile fun c => c.toNat ≥ 0x80).length)

/-- The bytes that a base-64 scalar writes. -/
def readBinary (mark : Mark) (text : String) : Except Failure Value :=
  match foreignRun? text.toList with
  | some (c, position, length) =>
    let place :=
      if length == 1 then
        "character '" ++ numericEscape c.toNat ++ "' in position " ++ toString position
      else
        "characters in position " ++ toString position ++ "-" ++ toString (position + length - 1)
    .error (.problem (.binaryNotAscii
      ("'ascii' codec can't encode " ++ place ++ ": ordinal not in range(128)")) mark)
  | none =>
    match Base64.decode text.toList with
    | .ok bytes => .ok (.bytes bytes)
    | .error fault => .error (.problem (.binaryUndecodable fault.message) mark)

def orFatal {α : Type} : Option α → Except Failure α
  | some a => .ok a
  | none => .error .fatal

def scalarValue (maker : Maker) (mark : Mark) (text : String) : Except Failure Value :=
  match maker with
  | .null => .ok .null
  | .bool => (orFatal (readBool? text)).map .bool
  | .int => (orFatal (readInt? text)).map .int
  | .float => (orFatal (readFloat? text)).map .float
  | .binary => readBinary mark text
  | .timestamp => orFatal (readTimestamp? text)
  | _ => .ok (.str text)

end FlowLock.Yaml
