import FlowLock.Yaml.Token.Tag

/-!
# From characters to tokens

The lexer goes through a document once.  What makes YAML unusual is that a key is
recognised only by the colon after it: a token that may turn out to start a key is
*pending*, and the tokens from it on are not yet *settled*, because the mark of
the key has to go in front of it.  When the lexer fails, the reader of its tokens
has seen the settled ones and no more.  Which of two faults in a document is
reported follows from that.
-/

namespace FlowLock.Yaml

open Scalar (failAt)

structure PendingKey where
  number : Nat
  required : Bool
  mark : Mark
deriving Repr, Inhabited

structure Lexer where
  cursor : Cursor
  /-- How many brackets are open.  A stray closing bracket takes it below zero. -/
  flowLevel : Int
  /-- The tokens so far, the latest first. -/
  tokens : List Token
  count : Nat
  /-- The column of the innermost block collection, `-1` outside all of them. -/
  indent : Int
  /-- The columns of the block collections around it. -/
  outer : List Int
  /-- Whether a key may start at the next token. -/
  keyAllowed : Bool
  /-- The pending keys, one at most for each flow level. -/
  pending : List (Int × PendingKey)
deriving Inhabited

namespace Lexer

def start (cs : List Char) : Lexer :=
  let cursor := Cursor.start cs
  { cursor, flowLevel := 0, tokens := [⟨.streamStart, cursor.mark, cursor.mark⟩], count := 1,
    indent := -1, outer := [], keyAllowed := true, pending := [] }

def inFlow (l : Lexer) : Bool := l.flowLevel != 0

def column (l : Lexer) : Int := Int.ofNat l.cursor.column

def push (l : Lexer) (kind : TokenKind) (finish : Mark) (after : Cursor) : Lexer :=
  { l with
    tokens := ⟨kind, l.cursor.mark, finish⟩ :: l.tokens, count := l.count + 1, cursor := after }

def pushEmpty (l : Lexer) (kind : TokenKind) : Lexer :=
  l.push kind l.cursor.mark l.cursor

def pushChars (l : Lexer) (kind : TokenKind) (n : Nat) : Lexer :=
  let after := l.cursor.advance n
  l.push kind after.mark after

def insertAt (l : Lexer) (number : Nat) (kind : TokenKind) (mark : Mark) : Lexer :=
  { l with
    tokens := l.tokens.insertIdx (l.count - number) ⟨kind, mark, mark⟩, count := l.count + 1 }

/-! ## Pending keys -/

/-- Whether a pending key can no longer become one: its line is over, or more than
a thousand characters have passed. -/
def isStale (l : Lexer) (key : PendingKey) : Bool :=
  key.mark.line != l.cursor.line || l.cursor.index - key.mark.index > 1024

/-- The state without stale keys; a stale key that must be one is an error. -/
def dropStale (l : Lexer) : Except Failure Lexer :=
  if l.pending.any fun entry => l.isStale entry.2 && entry.2.required then
    failAt l.cursor .missingColon
  else .ok { l with pending := l.pending.filter fun entry => !l.isStale entry.2 }

/-- The state without the pending key of this level, which must not be a required
one. -/
def dropPending (l : Lexer) : Except Failure Lexer :=
  match l.pending.lookup l.flowLevel with
  | none => .ok l
  | some key =>
    if key.required then failAt l.cursor .missingColon
    else .ok { l with pending := l.pending.filter fun entry => entry.1 != l.flowLevel }

def savePending (l : Lexer) : Except Failure Lexer :=
  if l.keyAllowed then do
    let required := !l.inFlow && l.indent == l.column
    let l ← l.dropPending
    let key : PendingKey := { number := l.count, required, mark := l.cursor.mark }
    pure { l with pending := l.pending ++ [(l.flowLevel, key)] }
  else .ok l

/-- The number of tokens that no pending key can still move. -/
def settled (l : Lexer) : Nat :=
  l.pending.foldl (fun n entry => min n entry.2.number) l.count

/-! ## Indentation -/

/-- Block ends for the collections indented more than a column; `outer` bounds
their number. -/
def closeBlocks (l : Lexer) (column : Int) : List Int → Lexer
  | [] => l
  | previous :: outer =>
    if l.indent > column then
      closeBlocks { l.pushEmpty .blockEnd with indent := previous, outer } column outer
    else l

/-- The block collections that end before a column; between brackets none does. -/
def unwind (l : Lexer) (column : Int) : Lexer :=
  if l.inFlow then l else l.closeBlocks column l.outer

def openBlock (l : Lexer) (column : Int) : Lexer × Bool :=
  if l.indent < column then ({ l with indent := column, outer := l.indent :: l.outer }, true)
  else (l, false)

/-! ## Tokens -/

/-- Spaces, comments and line breaks before the next token. -/
def skipBlank : Nat → Lexer → Lexer
  | 0, l => l
  | n + 1, l =>
    let c := l.cursor.skipSpaces.skipComment
    if isBreak c.peek then
      skipBlank n { l with cursor := c.lineBreak.2, keyAllowed := l.keyAllowed || !l.inFlow }
    else { l with cursor := c }

/-- The state at the next token; a byte-order mark may open the document. -/
def toNext (l : Lexer) : Lexer :=
  let c := l.cursor
  let l := if c.index == 0 && c.peek == byteOrderMark then { l with cursor := c.next } else l
  skipBlank (l.cursor.rest.length + 1) l

def endBlocks (l : Lexer) : Except Failure Lexer := do
  let l ← (l.unwind (-1)).dropPending
  pure { l with keyAllowed := false }

def streamEnd (l : Lexer) : Except Failure Lexer := do
  let l ← l.endBlocks
  pure { l.pushEmpty .streamEnd with pending := [] }

def directive (l : Lexer) : Except Failure Lexer := do
  let l ← l.endBlocks
  let (value, finish, after) ← Lexeme.directive l.cursor
  pure (l.push (.directive value) finish after)

def marker (l : Lexer) (kind : TokenKind) : Except Failure Lexer := do
  let l ← l.endBlocks
  pure (l.pushChars kind 3)

def flowStart (l : Lexer) (kind : TokenKind) : Except Failure Lexer := do
  let l ← l.savePending
  pure { l.pushChars kind 1 with flowLevel := l.flowLevel + 1, keyAllowed := true }

def flowEnd (l : Lexer) (kind : TokenKind) : Except Failure Lexer := do
  let l ← l.dropPending
  pure { l.pushChars kind 1 with flowLevel := l.flowLevel - 1, keyAllowed := false }

def flowEntry (l : Lexer) : Except Failure Lexer := do
  let l ← { l with keyAllowed := true }.dropPending
  pure (l.pushChars .flowEntry 1)

/-- The start of a block collection at the next token, outside brackets. -/
def openHere (l : Lexer) (cause : Problem) (kind : TokenKind) : Except Failure Lexer :=
  if l.inFlow then .ok l
  else if !l.keyAllowed then failAt l.cursor cause
  else
    let (l, opened) := l.openBlock l.column
    .ok (if opened then l.pushEmpty kind else l)

def blockEntry (l : Lexer) : Except Failure Lexer := do
  let l ← l.openHere .sequenceNotAllowed .blockSequenceStart
  let l ← { l with keyAllowed := true }.dropPending
  pure (l.pushChars .blockEntry 1)

def key (l : Lexer) : Except Failure Lexer := do
  let l ← l.openHere .keyNotAllowed .blockMappingStart
  let l ← { l with keyAllowed := !l.inFlow }.dropPending
  pure (l.pushChars .key 1)

/-- A pending key made a key: its mark, and the start of the mapping where one starts
here, go in front of it. -/
def makeKey (l : Lexer) (key : PendingKey) : Lexer :=
  let l := { l with pending := l.pending.filter fun entry => entry.1 != l.flowLevel }
  let l := l.insertAt key.number .key key.mark
  let (l, opened) :=
    if l.inFlow then (l, false) else l.openBlock (Int.ofNat key.mark.column)
  let l := if opened then l.insertAt key.number .blockMappingStart key.mark else l
  { l with keyAllowed := false }

def value (l : Lexer) : Except Failure Lexer := do
  let l ← match l.pending.lookup l.flowLevel with
    | some key => pure (l.makeKey key)
    | none => do
      let l ← l.openHere .valueNotAllowed .blockMappingStart
      { l with keyAllowed := !l.inFlow }.dropPending
  pure (l.pushChars .value 1)

def anchor (l : Lexer) (kind : String → TokenKind) : Except Failure Lexer := do
  let l ← l.savePending
  let (name, after) ← Lexeme.anchorName l.cursor
  pure ({ l with keyAllowed := false }.push (kind name) after.mark after)

def tag (l : Lexer) : Except Failure Lexer := do
  let l ← l.savePending
  let (handle, suffix, after) ← Lexeme.tag l.cursor
  pure ({ l with keyAllowed := false }.push (.tag handle suffix) after.mark after)

def pushScalar (l : Lexer) (plain : Bool) (read : Scalar.Read) : Lexer :=
  l.push (.scalar (String.ofList read.text) plain) read.finish read.cursor

def blockScalar (l : Lexer) (folded : Bool) : Except Failure Lexer := do
  let l ← { l with keyAllowed := true }.dropPending
  let read ← Scalar.block folded l.indent l.cursor
  pure (l.pushScalar false read)

def quotedScalar (l : Lexer) (double : Bool) : Except Failure Lexer := do
  let l ← l.savePending
  let read ← Scalar.quoted double l.cursor
  pure ({ l with keyAllowed := false }.pushScalar false read)

/-- A plain scalar.  A line break after its last word allows a key again. -/
def plainScalar (l : Lexer) : Except Failure Lexer := do
  let l ← l.savePending
  let read := Scalar.plain l.inFlow (l.indent + 1) l.cursor
  pure ({ l with keyAllowed := read.broken }.pushScalar true read)

def startsPlain (l : Lexer) : Bool :=
  let ch := l.cursor.peek
  let after := l.cursor.peekAt 1
  !(isBlankOrEnd ch || "-?:,[]\x7b\x7d#&*!|>'\"%@`".toList.contains ch) ||
    (!isBlankOrEnd after && (ch == '-' || (!l.inFlow && (ch == '?' || ch == ':'))))

/-- Whether the mark at the cursor stands alone, as outside brackets it must. -/
def standsAlone (l : Lexer) : Bool := isBlankOrEnd (l.cursor.peekAt 1)

def token (l : Lexer) : Except Failure Lexer :=
  let c := l.cursor
  let ch := c.peek
  if ch == endChar then l.streamEnd
  else if ch == '%' && c.column == 0 then l.directive
  else if c.column == 0 && c.atMarker '-' then l.marker .documentStart
  else if c.column == 0 && c.atMarker '.' then l.marker .documentEnd
  else if ch == '[' then l.flowStart .flowSequenceStart
  else if ch == '\x7b' then l.flowStart .flowMappingStart
  else if ch == ']' then l.flowEnd .flowSequenceEnd
  else if ch == '\x7d' then l.flowEnd .flowMappingEnd
  else if ch == ',' then l.flowEntry
  else if ch == '-' && l.standsAlone then l.blockEntry
  else if ch == '?' && (l.inFlow || l.standsAlone) then l.key
  else if ch == ':' && (l.inFlow || l.standsAlone) then l.value
  else if ch == '*' then l.anchor .alias
  else if ch == '&' then l.anchor .anchor
  else if ch == '!' then l.tag
  else if ch == '|' && !l.inFlow then l.blockScalar false
  else if ch == '>' && !l.inFlow then l.blockScalar true
  else if ch == '\'' then l.quotedScalar false
  else if ch == '"' then l.quotedScalar true
  else if l.startsPlain then l.plainScalar
  else failAt c (.cannotStartToken ch)

/-- The token at the cursor, and before it the ends of the blocks that end there. -/
def readToken (l : Lexer) : Except Failure Lexer := do
  let l ← (l.unwind l.column).token
  l.dropStale

/-- One step: the blanks before the next token, then the token. -/
@[irreducible] def fetch (l : Lexer) : Except Failure Lexer := do
  let l ← l.toNext.dropStale
  l.readToken

def isDone (l : Lexer) : Bool :=
  match l.tokens with
  | token :: _ => token.kind == .streamEnd
  | [] => false

/-- All steps; the bound is never reached, since each but the last passes a
character. -/
def run : Nat → Lexer → List Token × Option Failure
  | 0, l => (l.tokens.reverse.take l.settled, some .fatal)
  | n + 1, l =>
    match l.fetch with
    | .error failure => (l.tokens.reverse.take l.settled, some failure)
    | .ok next => if next.isDone then (next.tokens.reverse, none) else run n next

end Lexer

def isAcceptable (c : Char) : Bool :=
  let n := c.toNat
  n == 0x9 || n == 0xa || n == 0xd || (0x20 ≤ n && n ≤ 0x7e) || n == 0x85 ||
    (0xa0 ≤ n && n ≤ 0xd7ff) || (0xe000 ≤ n && n ≤ 0xfffd) || 0x10000 ≤ n

def firstForbidden? : Nat → List Char → Option (Char × Nat)
  | _, [] => none
  | k, c :: cs => if isAcceptable c then firstForbidden? (k + 1) cs else some (c, k)

/-- The settled tokens of a document, and the failure that follows them. -/
def tokenize (cs : List Char) : List Token × Option Failure :=
  match firstForbidden? 0 cs with
  | some (c, k) => ([], some (.forbidden c k))
  | none => Lexer.run (cs.length + 2) (Lexer.start cs)

end FlowLock.Yaml
