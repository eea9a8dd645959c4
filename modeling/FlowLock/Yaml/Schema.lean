import FlowLock.Text.Digit
import FlowLock.Text.Search

/-!
# Which tag a plain scalar has

A plain scalar is a number, a timestamp, a boolean, null or a mark when its text
has one of the forms below, and a text otherwise.  Schemas differ in the words
that they take for booleans.
-/

namespace FlowLock.Yaml

open Text

namespace Tag

def standard (name : String) : String := "tag:yaml.org,2002:" ++ name

def null : String := standard "null"
def bool : String := standard "bool"
def int : String := standard "int"
def float : String := standard "float"
def str : String := standard "str"
def seq : String := standard "seq"
def map : String := standard "map"
def set : String := standard "set"
def omap : String := standard "omap"
def pairs : String := standard "pairs"
def binary : String := standard "binary"
def timestamp : String := standard "timestamp"
def merge : String := standard "merge"
def value : String := standard "value"

end Tag

structure Schema where
  boolWords : List String

/-- Only the words for true and false are booleans, so that the trigger key of a
workflow stays a text. -/
def Schema.workflow : Schema :=
  { boolWords := ["true", "True", "TRUE", "false", "False", "FALSE"] }

/-- The wide schema, in which the words for yes, no, on and off are booleans too. -/
def Schema.wide : Schema :=
  { boolWords := ["yes", "Yes", "YES", "no", "No", "NO", "true", "True", "TRUE", "false", "False",
      "FALSE", "on", "On", "ON", "off", "Off", "OFF"] }

namespace Form

/-- A text without one sign at its start. -/
def unsigned : List Char → List Char
  | '+' :: cs => cs
  | '-' :: cs => cs
  | cs => cs

def isGrouped (p : Char → Bool) (c : Char) : Bool := c == '_' || p c

def isDigitsGrouped : List Char → Bool
  | [] => false
  | c :: cs => isAsciiDigit c && cs.all (isGrouped isAsciiDigit)

def isOctal (c : Char) : Bool := '0' ≤ c && c ≤ '7'

/-- Not empty, and in a class throughout. -/
def isRun (p : Char → Bool) (cs : List Char) : Bool := !cs.isEmpty && cs.all p

def isSexagesimalPart : List Char → Bool
  | [c] => isAsciiDigit c
  | [c, d] => '0' ≤ c && c ≤ '5' && isAsciiDigit d
  | _ => false

/-- A number with parts below sixty after colons, at least one of them. -/
def isSexagesimal (first : List Char → Bool) (cs : List Char) : Bool :=
  match splitList ':' cs with
  | head :: part :: parts => first head && (part :: parts).all isSexagesimalPart
  | _ => false

def isInt (cs : List Char) : Bool :=
  match unsigned cs with
  | '0' :: 'b' :: rest => isRun (isGrouped fun c => c == '0' || c == '1') rest
  | '0' :: 'x' :: rest => isRun (isGrouped fun c => (hexValue? c).isSome) rest
  | ['0'] => true
  | '0' :: rest => isRun (isGrouped isOctal) rest
  | rest =>
    isDigitsGrouped rest || isSexagesimal isDigitsGrouped rest

def isExponent : List Char → Bool
  | [] => true
  | e :: sign :: digits =>
    (e == 'e' || e == 'E') && (sign == '+' || sign == '-') && isRun isAsciiDigit digits
  | _ => false

def isFraction (cs : List Char) : Bool :=
  isExponent (cs.dropWhile (isGrouped isAsciiDigit))

def isPointed (cs : List Char) : Bool :=
  match splitOnceList '.' (unsigned cs) with
  | some (whole, rest) =>
    (isDigitsGrouped whole && isFraction rest) ||
      (isSexagesimal isDigitsGrouped whole && rest.all (isGrouped isAsciiDigit))
  | none => false

def isFloat (cs : List Char) : Bool :=
  isPointed cs ||
    (match cs with
      | '.' :: d :: rest => isAsciiDigit d && isFraction (d :: rest)
      | _ => false) ||
    [".inf", ".Inf", ".INF"].contains (String.ofList (unsigned cs)) ||
    [".nan", ".NaN", ".NAN"].contains (String.ofList cs)

def takeDigits? (lengths : List Nat) (cs : List Char) : Option (List Char) :=
  let n := (cs.takeWhile isAsciiDigit).length
  if lengths.contains n then some (cs.drop n) else none

def takeChar? (c : Char) : List Char → Option (List Char)
  | [] => none
  | d :: cs => if c == d then some cs else none

/-- The end of a timestamp: nothing, `Z` or an offset, after blanks. -/
def isOffset (cs : List Char) : Bool :=
  match cs with
  | [] => true
  | _ =>
    match cs.dropWhile fun c => c == ' ' || c == '\t' with
    | ['Z'] => true
    | sign :: rest =>
      (sign == '+' || sign == '-') &&
        (match takeDigits? [1, 2] rest with
          | some [] => true
          | some (':' :: minutes) => takeDigits? [2] minutes == some []
          | _ => false)
    | [] => false

def isDay (cs : List Char) : Bool :=
  let parsed := do
    let cs ← takeDigits? [4] cs
    let cs ← takeChar? '-' cs
    let cs ← takeDigits? [2] cs
    let cs ← takeChar? '-' cs
    takeDigits? [2] cs
  parsed == some []

def isTime (cs : List Char) : Bool :=
  let parsed := do
    let cs ← takeDigits? [1, 2] cs
    let cs ← takeChar? ':' cs
    let cs ← takeDigits? [2] cs
    let cs ← takeChar? ':' cs
    takeDigits? [2] cs
  match parsed with
  | some ('.' :: rest) => isOffset (rest.dropWhile isAsciiDigit)
  | some rest => isOffset rest
  | none => false

def isMoment (cs : List Char) : Bool :=
  let parsed := do
    let cs ← takeDigits? [4] cs
    let cs ← takeChar? '-' cs
    let cs ← takeDigits? [1, 2] cs
    let cs ← takeChar? '-' cs
    takeDigits? [1, 2] cs
  match parsed with
  | some (c :: rest) =>
    if c == 'T' || c == 't' then isTime rest
    else if c == ' ' || c == '\t' then isTime (rest.dropWhile fun c => c == ' ' || c == '\t')
    else false
  | _ => false

def withoutLineFeed (text : String) : String :=
  if endsWith text "\n" && text != "\n" then String.ofList text.toList.dropLast else text

end Form

/-- The tag of a plain scalar.  A line feed may end the text of any form. -/
def Schema.resolve (schema : Schema) (text : String) : String :=
  let text := Form.withoutLineFeed text
  let cs := text.toList
  if schema.boolWords.contains text then Tag.bool
  else if Form.isFloat cs then Tag.float
  else if Form.isInt cs then Tag.int
  else if text == "<<" then Tag.merge
  else if ["~", "null", "Null", "NULL", ""].contains text then Tag.null
  else if Form.isDay cs || Form.isMoment cs then Tag.timestamp
  else if text == "=" then Tag.value
  else Tag.str

end FlowLock.Yaml
