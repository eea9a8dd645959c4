import FlowLock.Text.Number
import FlowLock.Value.Literal

/-!
# Values as JSON text

The encoder behind the handler settings, the server configuration and the digest
payload.  The text is pure ASCII: any other character is written by its UTF-16
units.  A value with no JSON form makes the encoding fail, unless the style gives
it a text.
-/

namespace FlowLock.Json

open Text

/-- How JSON text is laid out. -/
structure Style where
  /-- What stands between items on one line. -/
  separator : String
  colon : String
  /-- The width of one level, when items stand on lines of their own. -/
  indent : Option Nat
  /-- Whether the entries of a mapping are sorted by key. -/
  sorted : Bool
  /-- Whether days, moments, byte strings and sets are written as texts. -/
  lenient : Bool

def compact : Style :=
  { separator := ",", colon := ":", indent := none, sorted := false, lenient := false }

def spaced : Style :=
  { separator := ", ", colon := ": ", indent := none, sorted := false, lenient := false }

/-- One item a line, two blanks a level. -/
def indented : Style :=
  { separator := ",", colon := ": ", indent := some 2, sorted := false, lenient := false }

/-- No blanks, sorted keys, a text for everything: equal values have equal
encodings. -/
def canonical : Style :=
  { separator := ",", colon := ":", indent := none, sorted := true, lenient := true }

def unitEscape (n : Nat) : String := "\\u" ++ hexPadded 4 n

def escapeChar (c : Char) : String :=
  if c == '"' then "\\\""
  else if c == '\\' then "\\\\"
  else if c == '\n' then "\\n"
  else if c == '\r' then "\\r"
  else if c == '\t' then "\\t"
  else if c.toNat == 0x8 then "\\b"
  else if c.toNat == 0xc then "\\f"
  else if 0x20 ≤ c.toNat && c.toNat ≤ 0x7e then String.singleton c
  else if code c < 0x10000 then unitEscape (code c)
  else
    let n := c.toNat - 0x10000
    unitEscape (0xd800 + n / 0x400) ++ unitEscape (0xdc00 + n % 0x400)

def quote (s : String) : String :=
  "\"" ++ String.join (s.toList.map escapeChar) ++ "\""

def doubleFormat : Double.DecimalFormat :=
  { Double.standard with infinity := "Infinity", notANumber := "NaN" }

/-- The decimal numeral of an integer, unless it is longer than any that is read. -/
def intText? (n : Int) : Option String :=
  let digits := toString n.natAbs
  if digits.length > maxDecimalDigits then none else some (toString n)

def keyText? : Value → Option String
  | .str s => some s
  | .bool b => some (if b then "true" else "false")
  | .null => some "null"
  | .int n => intText? n
  | .float x => some (x.text doubleFormat)
  | _ => none

/-- Whether the first key comes before the second; `none` when the two have no
order. -/
def keyBefore? : Value → Value → Option Bool
  | .str s, .str t => some (s < t)
  | v, w =>
    match v.number?, w.number? with
    | some (.inl n), some (.inl m) => some (n < m)
    | some a, some b => some (magnitudeBefore a b)
    | _, _ => none
where
  /-- Order of numbers of which one at least is no integer. -/
  magnitudeBefore (a b : Int ⊕ Double) : Bool :=
    match toDouble a, toDouble b with
    | .nan, _ => false
    | _, .nan => false
    | .infinite s, .infinite t => s && !t
    | .infinite s, .finite .. => s
    | .finite .., .infinite t => !t
    | .finite s m q, .finite t n r =>
      let (a, b) := Double.ratio m q
      let (c, d) := Double.ratio n r
      let x : Int := if s then -(Int.ofNat (a * d)) else Int.ofNat (a * d)
      let y : Int := if t then -(Int.ofNat (c * b)) else Int.ofNat (c * b)
      x < y
  toDouble : Int ⊕ Double → Double
    | .inl n => Double.ofInt n
    | .inr x => x

/-- An entry inserted before the first entry with a greater key. -/
def insertSorted? {α : Type} (key : Value) (item : α) :
    List (Value × α) → Option (List (Value × α))
  | [] => some [(key, item)]
  | (k, a) :: rest => do
    let before ← keyBefore? key k
    if before then some ((key, item) :: (k, a) :: rest)
    else (insertSorted? key item rest).map ((k, a) :: ·)

/-- Entries sorted by key, or `none` when two keys have no order. -/
def sortEntries? {α : Type} (es : List (Value × α)) : Option (List (Value × α)) :=
  es.foldl (fun acc e => do insertSorted? e.1 e.2 (← acc)) (some [])

def bracket (style : Style) (depth : Nat) (opening closing : String) (items : List String) :
    String :=
  if items.isEmpty then opening ++ closing
  else match style.indent with
    | none => opening ++ style.separator.intercalate items ++ closing
    | some width =>
      let inner := "\n" ++ repeated " " (width * (depth + 1))
      let outer := "\n" ++ repeated " " (width * depth)
      opening ++ inner ++ (style.separator ++ inner).intercalate items ++ outer ++ closing

def members? (style : Style) (es : List (Value × String)) : Option (List String) := do
  let es ← if style.sorted then sortEntries? es else some es
  es.mapM fun (k, text) => do
    let key ← keyText? k
    pure (quote key ++ style.colon ++ text)

mutual

def encodeAt? (style : Style) (depth : Nat) : Value → Option String
  | .null => some "null"
  | .bool b => some (if b then "true" else "false")
  | .int n => intText? n
  | .float x => some (x.text doubleFormat)
  | .str s => some (quote s)
  | .list xs => do
    pure (bracket style depth "[" "]" (← encodeItems? style (depth + 1) xs))
  | .pair k v => do
    pure (bracket style depth "[" "]"
      [← encodeAt? style (depth + 1) k, ← encodeAt? style (depth + 1) v])
  | .map es => do
    let encoded ← encodeEntries? style (depth + 1) es
    pure (bracket style depth "\x7b" "\x7d" (← members? style encoded))
  | .date d => if style.lenient then some (quote d.text) else none
  | .moment t => if style.lenient then some (quote t.text) else none
  | .bytes bs => if style.lenient then some (quote (quotedBytes bs)) else none
  | .set xs => if style.lenient then some (quote (Value.set xs).literal) else none
  | .knot _ _ => none
termination_by structural v => v

def encodeItems? (style : Style) (depth : Nat) : List Value → Option (List String)
  | [] => some []
  | x :: xs => do
    let text ← encodeAt? style depth x
    let texts ← encodeItems? style depth xs
    pure (text :: texts)
termination_by structural xs => xs

def encodeEntries? (style : Style) (depth : Nat) :
    List (Value × Value) → Option (List (Value × String))
  | [] => some []
  | e :: es => do
    let entry ← encodeEntry? style depth e
    let rest ← encodeEntries? style depth es
    pure (entry :: rest)
termination_by structural es => es

def encodeEntry? (style : Style) (depth : Nat) : Value × Value → Option (Value × String)
  | (k, v) => (encodeAt? style depth v).map (k, ·)
termination_by structural e => e

end

/-- The JSON text of a value, or `none` when it has none in this style. -/
def encode? (style : Style) (v : Value) : Option String :=
  encodeAt? style 0 v

def encodeTexts (style : Style) (xs : List String) : String :=
  bracket style 0 "[" "]" (xs.map quote)

end FlowLock.Json
