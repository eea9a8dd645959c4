import FlowLock.Text.Search
import FlowLock.Yaml.Writer.Analysis

/-!
# The sheet that a document is written on

The text written so far, the column of the pen and what stands right before it.
Scalars are written here in each of their four forms.
-/

namespace FlowLock.Yaml

open String

structure Sheet where
  text : String
  column : Nat
  spaced : Bool
  /-- Whether only indentation and entry marks stand before the pen in its line. -/
  atIndent : Bool
  /-- Whether the document ends in line breaks that belong to a scalar. -/
  openEnded : Bool

namespace Sheet

def blank : Sheet :=
  { text := "", column := 0, spaced := true, atIndent := true, openEnded := false }

def put (s : Sheet) (more : String) : Sheet :=
  { s with text := s.text ++ more, column := s.column + more.length }

def breakLine (s : Sheet) (mark : Char) : Sheet :=
  { s with text := s.text.push mark, column := 0, spaced := true, atIndent := true }

/-- The pen moved to an indentation, on a new line unless it already stands before
it on a line with nothing else. -/
def toIndent (s : Sheet) (indent : Nat) : Sheet :=
  let s :=
    if !s.atIndent || s.column > indent || (s.column == indent && !s.spaced) then s.breakLine '\n'
    else s
  if s.column < indent then
    { s.put (Text.repeated " " (indent - s.column)) with spaced := true }
  else s

/-- A mark, after a blank where one is needed.  `spaced` says that it serves as a
blank for what follows, `entry` that what follows may start a block on its line. -/
def indicator (s : Sheet) (mark : String) (apart : Bool) (spaced : Bool) (entry : Bool) : Sheet :=
  let s' := s.put (if s.spaced || !apart then mark else " " ++ mark)
  { s' with spaced, atIndent := s.atIndent && entry, openEnded := false }

/-! ## Scalars -/

def plain (s : Sheet) (cs : List Char) : Sheet :=
  if cs.isEmpty then s
  else
    let s := if s.spaced then s else s.put " "
    { s.put (ofList cs) with spaced := false, atIndent := false }

/-- The characters between single quotes.  A run of line breaks is followed by the
indentation; `inBreak` says that the last character was one. -/
def singleChars (indent : Nat) : Bool → Sheet → List Char → Sheet
  | inBreak, s, [] => if inBreak then s.toIndent indent else s
  | inBreak, s, c :: cs =>
    if Analysis.isWrittenBreak c then
      let s := if c == '\n' && !inBreak then s.breakLine '\n' else s
      singleChars indent true (s.breakLine c) cs
    else
      let s := if inBreak then s.toIndent indent else s
      singleChars indent false (s.put (if c == '\'' then "''" else singleton c)) cs

def single (s : Sheet) (indent : Nat) (cs : List Char) : Sheet :=
  (singleChars indent false (s.indicator "'" true false false) cs).indicator "'" false false false

def isPlainInDouble (c : Char) : Bool :=
  let n := c.toNat
  !(c == '"' || c == '\\' || c == byteOrderMark || n == 0x2028 || n == 0x2029) &&
    ((0x20 ≤ n && n ≤ 0x7e) || (0xa0 ≤ n && n ≤ 0xd7ff) || (0xe000 ≤ n && n ≤ 0xfffd))

def shortEscapes : List (Nat × Char) :=
  [(0x0, '0'), (0x7, 'a'), (0x8, 'b'), (0x9, 't'), (0xa, 'n'), (0xb, 'v'), (0xc, 'f'), (0xd, 'r'),
   (0x1b, 'e'), (0x22, '"'), (0x5c, '\\'), (0x85, 'N'), (0xa0, '_'), (0x2028, 'L'), (0x2029, 'P')]

def shortEscape? (c : Char) : Option Char := shortEscapes.lookup c.toNat

def upperHex (width n : Nat) : String :=
  ofList ((Text.hexPadded width n).toList.map Char.toUpper)

def doubleChar (c : Char) : String :=
  if isPlainInDouble c then singleton c
  else match shortEscape? c with
    | some letter => ofList ['\\', letter]
    | none =>
      let n := Text.code c
      if n ≤ 0xff then "\\x" ++ upperHex 2 n
      else if n ≤ 0xffff then "\\u" ++ upperHex 4 n
      else "\\U" ++ upperHex 8 n

def double (s : Sheet) (cs : List Char) : Sheet :=
  ((s.indicator "\"" true false false).put (join (cs.map doubleChar))).indicator
    "\"" false false false

/-- The hints of a literal block: the indentation when the text starts with a space
or a break, and how its final breaks are meant. -/
def literalHints (cs : List Char) : String :=
  let leading := match cs with
    | [] => ""
    | c :: _ => if c == ' ' || Analysis.isWrittenBreak c then "2" else ""
  let trailing := match cs.reverse with
    | [] => ""
    | [c] => if Analysis.isWrittenBreak c then "+" else "-"
    | c :: d :: _ =>
      if !Analysis.isWrittenBreak c then "-" else if Analysis.isWrittenBreak d then "+" else ""
  leading ++ trailing

/-- The lines of a literal block.  Each non-empty line is indented; `inBreak` says
that the pen stands at the start of a line. -/
def literalChars (indent : Nat) : Bool → Sheet → List Char → Sheet
  | inBreak, s, [] => if inBreak then s else s.breakLine '\n'
  | inBreak, s, c :: cs =>
    if Analysis.isWrittenBreak c then literalChars indent true (s.breakLine c) cs
    else
      let s := if inBreak then s.toIndent indent else s
      literalChars indent false { s with text := s.text.push c } cs

def literal (s : Sheet) (indent : Nat) (cs : List Char) : Sheet :=
  let hints := literalHints cs
  let s := s.indicator ("|" ++ hints) true false false
  let s := { s with openEnded := hints.toList.getLast? == some '+' }
  literalChars indent true (s.breakLine '\n') cs

end Sheet

end FlowLock.Yaml
