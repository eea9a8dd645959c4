import FlowLock.Yaml.Problem

/-!
# A cursor over a document

The unread characters of a document with the place of the next one.  Reading past
the end gives the null character, which no document can hold.
-/

namespace FlowLock.Yaml

def endChar : Char := Char.ofNat 0

def byteOrderMark : Char := Char.ofNat 0xfeff

def isBreak (c : Char) : Bool :=
  c == '\n' || c == '\r' || c.toNat == 0x85 || c.toNat == 0x2028 || c.toNat == 0x2029

def isBreakOrEnd (c : Char) : Bool := c == endChar || isBreak c

def isSpaceOrEnd (c : Char) : Bool := c == ' ' || isBreakOrEnd c

/-- Whether a character ends a word, tabs included. -/
def isBlankOrEnd (c : Char) : Bool := c == '\t' || isSpaceOrEnd c

/-- Whether a character can stand in an anchor or a directive name. -/
def isWordChar (c : Char) : Bool :=
  Text.isAsciiDigit c || Text.isAsciiLetter c || c == '-' || c == '_'

/-- The unread characters and the place of the first of them. -/
structure Cursor where
  rest : List Char
  index : Nat
  line : Nat
  column : Nat
deriving Repr, Inhabited

namespace Cursor

def start (cs : List Char) : Cursor := { rest := cs, index := 0, line := 0, column := 0 }

def mark (c : Cursor) : Mark := { index := c.index, line := c.line, column := c.column }

def peek (c : Cursor) : Char := c.rest.headD endChar

def peekAt (c : Cursor) (k : Nat) : Char := c.rest.getD k endChar

def next (c : Cursor) : Cursor :=
  match c.rest with
  | [] => c
  | ch :: rest =>
    if isBreak ch && !(ch == '\r' && rest.headD endChar == '\n') then
      { rest, index := c.index + 1, line := c.line + 1, column := 0 }
    else if ch == byteOrderMark then { c with rest, index := c.index + 1 }
    else { c with rest, index := c.index + 1, column := c.column + 1 }

def advance (c : Cursor) : Nat → Cursor
  | 0 => c
  | n + 1 => advance c.next n

def run (c : Cursor) (p : Char → Bool) : List Char := c.rest.takeWhile p

def skipWhile (c : Cursor) (p : Char → Bool) : Cursor := c.advance (c.run p).length

def skipSpaces (c : Cursor) : Cursor := c.skipWhile (· == ' ')

def skipComment (c : Cursor) : Cursor :=
  if c.peek == '#' then c.skipWhile fun ch => !isBreakOrEnd ch else c

/-- One line break passed, with the text that it stands for; the empty text when
there is none.  The two-character break counts as one. -/
def lineBreak (c : Cursor) : List Char × Cursor :=
  let ch := c.peek
  if ch == '\r' && c.peekAt 1 == '\n' then (['\n'], c.advance 2)
  else if ch == '\r' || ch == '\n' || ch.toNat == 0x85 then (['\n'], c.next)
  else if isBreak ch then ([ch], c.next)
  else ([], c)

/-- Whether a document marker, three times the given character, starts here. -/
def atMarker (c : Cursor) (ch : Char) : Bool :=
  c.peek == ch && c.peekAt 1 == ch && c.peekAt 2 == ch && isBlankOrEnd (c.peekAt 3)

def atSeparator (c : Cursor) : Bool := c.atMarker '-' || c.atMarker '.'

end Cursor

end FlowLock.Yaml
