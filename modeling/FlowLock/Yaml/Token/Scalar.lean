import FlowLock.Yaml.Cursor

/-!
# Scalars

Reading of the five scalar styles: plain, single-quoted, double-quoted, literal
and folded.  Each reader starts at the first character of the scalar and gives
its text, the place after it and the cursor.

A loop over the document takes a bound on its rounds from the number of unread
characters, since every round passes at least one.
-/

namespace FlowLock.Yaml.Scalar

def failAt {α : Type} (c : Cursor) (cause : Problem) : Except Failure α :=
  .error (.problem cause c.mark)

/-! ## Plain scalars -/

/-- Whether a character is one of those that end a plain scalar between brackets. -/
def isFlowMark (ch : Char) : Bool :=
  ch == ',' || ch == '[' || ch == ']' || ch == '\x7b' || ch == '\x7d'

def endsPlain (flow : Bool) (ch : Char) (rest : List Char) : Bool :=
  let after := rest.headD endChar
  isBlankOrEnd ch || (ch == ':' && (isBlankOrEnd after || (flow && isFlowMark after))) ||
    (flow && (isFlowMark ch || ch == '?'))

def plainLength (flow : Bool) : List Char → Nat
  | [] => 0
  | ch :: rest => if endsPlain flow ch rest then 0 else plainLength flow rest + 1

/-- Spaces and line breaks inside a plain scalar, after its first break: the breaks
after the first, or `none` when a document separator follows. -/
def plainBreaks : Nat → Cursor → List Char → Option (List Char) × Cursor
  | 0, c, breaks => (some breaks, c)
  | n + 1, c, breaks =>
    if c.peek == ' ' then plainBreaks n c.next breaks
    else if isBreak c.peek then
      let (text, c) := c.lineBreak
      if c.atSeparator then (none, c) else plainBreaks n c (breaks ++ text)
    else (some breaks, c)

/-- The text that one break and the breaks after it stand for: a single line feed
folds to a space. -/
def foldBreaks (first breaks : List Char) : List Char :=
  (if first != ['\n'] then first else if breaks.isEmpty then [' '] else []) ++ breaks

/-- What stands between two words of a plain scalar. -/
structure Gap where
  /-- The text that it folds to; empty when the scalar ends here. -/
  text : List Char
  broken : Bool
  cursor : Cursor

def plainGap (c : Cursor) : Gap :=
  let spaces := c.run (· == ' ')
  let c := c.advance spaces.length
  if isBreak c.peek then
    let (first, c) := c.lineBreak
    if c.atSeparator then { text := [], broken := true, cursor := c }
    else match plainBreaks c.rest.length c [] with
      | (none, c) => { text := [], broken := true, cursor := c }
      | (some breaks, c) => { text := foldBreaks first breaks, broken := true, cursor := c }
  else { text := spaces, broken := false, cursor := c }

/-- A scalar that has been read.  `broken` says that a line break was passed after
its last word. -/
structure Read where
  text : List Char
  finish : Mark
  broken : Bool
  cursor : Cursor

/-- The words of a plain scalar from the cursor on, after the text read so far and
the gap after it.  Outside brackets the scalar ends at a line that is indented
less than `indent`. -/
def plainFrom (flow : Bool) (indent : Int) : Nat → Read → List Char → Read
  | 0, done, _ => done
  | n + 1, done, gap =>
    let c := done.cursor
    if c.peek == '#' then done
    else
      let length := plainLength flow c.rest
      if length == 0 then done
      else
        let text := done.text ++ gap ++ c.rest.take length
        let c := c.advance length
        let next := plainGap c
        let done : Read :=
          { text, finish := c.mark, broken := next.broken, cursor := next.cursor }
        if next.text.isEmpty || next.cursor.peek == '#' ||
            (!flow && Int.ofNat next.cursor.column < indent) then done
        else plainFrom flow indent n done next.text

def plain (flow : Bool) (indent : Int) (c : Cursor) : Read :=
  plainFrom flow indent (c.rest.length + 1)
    { text := [], finish := c.mark, broken := false, cursor := c } []

/-! ## Quoted scalars -/

def quotedBreaks : Nat → Cursor → List Char → Except Failure (List Char × Cursor)
  | 0, c, breaks => .ok (breaks, c)
  | n + 1, c, breaks =>
    if c.atSeparator then failAt c .unexpectedSeparator
    else
      let c := c.skipWhile fun ch => ch == ' ' || ch == '\t'
      if isBreak c.peek then
        let (text, c) := c.lineBreak
        quotedBreaks n c (breaks ++ text)
      else .ok (breaks, c)

/-- Blanks inside a quoted scalar: kept within a line, folded at its end. -/
def quotedGap (c : Cursor) : Except Failure (List Char × Cursor) :=
  let blanks := c.run fun ch => ch == ' ' || ch == '\t'
  let c := c.advance blanks.length
  if c.peek == endChar then failAt c .unexpectedEnd
  else if isBreak c.peek then do
    let (first, c) := c.lineBreak
    let (breaks, c) ← quotedBreaks (c.rest.length + 1) c []
    pure (foldBreaks first breaks, c)
  else .ok (blanks, c)

def escape? (ch : Char) : Option Char :=
  ([('0', 0x0), ('a', 0x7), ('b', 0x8), ('t', 0x9), ('\t', 0x9), ('n', 0xa), ('v', 0xb),
    ('f', 0xc), ('r', 0xd), ('e', 0x1b), (' ', 0x20), ('"', 0x22), ('\\', 0x5c), ('/', 0x2f),
    ('N', 0x85), ('_', 0xa0), ('L', 0x2028), ('P', 0x2029)].lookup ch).map Char.ofNat

/-- The number of hexadecimal digits of a numeric escape. -/
def escapeWidth? (ch : Char) : Option Nat :=
  [('x', 2), ('u', 4), ('U', 8)].lookup ch

def hexNat (ds : List Char) : Nat :=
  ds.foldl (fun n d => n * 16 + (Text.hexValue? d).getD 0) 0

def escapeDigits (c : Cursor) (width : Nat) : Except Failure Nat :=
  let digits := (List.range width).map c.peekAt
  match digits.find? fun d => (Text.hexValue? d).isNone with
  | some d => failAt c (.expectedEscapeDigits width d)
  | none => .ok (hexNat digits)

/-- The character of a numeric escape, with the cursor after it.  There is none past
the last plane. -/
def escapedCode (c : Cursor) (width : Nat) : Except Failure (Char × Cursor) := do
  let code ← escapeDigits c width
  if code > 0x10ffff then .error .fatal
  else pure (if Text.isHalfUnit code then Text.half code else Char.ofNat code, c.advance width)

def escaped (c : Cursor) : Except Failure (List Char × Cursor) :=
  let ch := c.peek
  match escape? ch, escapeWidth? ch with
  | some result, _ => .ok ([result], c.next)
  | none, some width => do
    let (result, c) ← escapedCode c.next width
    pure ([result], c)
  | none, none =>
    if isBreak ch then
      let c := c.lineBreak.2
      quotedBreaks (c.rest.length + 1) c []
    else failAt c (.unknownEscape ch)

def quotedWord (double : Bool) : Nat → Cursor → List Char → Except Failure (List Char × Cursor)
  | 0, c, text => .ok (text, c)
  | n + 1, c, text =>
    let ordinary := c.run fun ch => !(ch == '\'' || ch == '"' || ch == '\\' || isBlankOrEnd ch)
    let text := text ++ ordinary
    let c := c.advance ordinary.length
    let ch := c.peek
    if !double && ch == '\'' && c.peekAt 1 == '\'' then
      quotedWord double n (c.advance 2) (text ++ ['\''])
    else if (double && ch == '\'') || (!double && (ch == '"' || ch == '\\')) then
      quotedWord double n c.next (text ++ [ch])
    else if double && ch == '\\' then do
      let (more, c) ← escaped c.next
      quotedWord double n c (text ++ more)
    else .ok (text, c)

def quotedFrom (double : Bool) (quote : Char) :
    Nat → Cursor → List Char → Except Failure (List Char × Cursor)
  | 0, c, text => .ok (text, c)
  | n + 1, c, text =>
    if c.peek == quote then .ok (text, c)
    else do
      let (gap, c) ← quotedGap c
      let (text, c) ← quotedWord double (c.rest.length + 1) c (text ++ gap)
      quotedFrom double quote n c text

def quoted (double : Bool) (c : Cursor) : Except Failure Read := do
  let quote := c.peek
  let c := c.next
  let (text, c) ← quotedWord double (c.rest.length + 1) c []
  let (text, c) ← quotedFrom double quote (c.rest.length + 1) c text
  let c := c.next
  pure { text, finish := c.mark, broken := false, cursor := c }

/-! ## Block scalars -/

inductive Chomping where
  | strip
  | clip
  | keep
deriving Repr, DecidableEq

/-- A chomping indicator, if one stands here. -/
def chomping? (ch : Char) : Option Chomping :=
  if ch == '+' then some .keep else if ch == '-' then some .strip else none

/-- An indentation indicator, if one stands here; zero is refused. -/
def increment? (c : Cursor) : Except Failure (Option Nat × Cursor) :=
  let ch := c.peek
  if ch == '0' then failAt c .zeroIndentation
  else if Text.isAsciiDigit ch then .ok (some (ch.toNat - '0'.toNat), c.next)
  else .ok (none, c)

/-- The indicators after the mark of a block scalar, in either order. -/
def blockHeader (c : Cursor) : Except Failure (Chomping × Option Nat × Cursor) := do
  let (chomping, increment, c) ← match chomping? c.peek with
    | some chomping => do
      let (increment, c) ← increment? c.next
      pure (chomping, increment, c)
    | none => do
      let (increment, c) ← increment? c
      match increment, chomping? c.peek with
      | some _, some chomping => pure (chomping, increment, c.next)
      | _, _ => pure (.clip, increment, c)
  if isSpaceOrEnd c.peek then pure (chomping, increment, c)
  else failAt c (.expectedBlockIndicator c.peek)

/-- The rest of a line that may hold a comment only, and its break. -/
def ignoredLine (c : Cursor) : Except Failure Cursor :=
  let c := c.skipSpaces.skipComment
  if isBreakOrEnd c.peek then .ok c.lineBreak.2 else failAt c (.expectedLineEnd c.peek)

/-- Leading blank lines, with the widest indentation seen. -/
def blockIndentation : Nat → Cursor → List Char → Nat → Mark → List Char × Nat × Mark × Cursor
  | 0, c, breaks, widest, finish => (breaks, widest, finish, c)
  | n + 1, c, breaks, widest, finish =>
    if c.peek == ' ' then
      let c := c.next
      blockIndentation n c breaks (max widest c.column) finish
    else if isBreak c.peek then
      let (text, c) := c.lineBreak
      blockIndentation n c (breaks ++ text) widest c.mark
    else (breaks, widest, finish, c)

def skipIndent (indent : Nat) (c : Cursor) : Cursor :=
  c.advance ((c.run (· == ' ')).take (indent - c.column)).length

/-- Blank lines inside a block scalar, up to the indentation of the next line. -/
def blockBreaks (indent : Nat) : Nat → Cursor → List Char → Mark → List Char × Mark × Cursor
  | 0, c, breaks, finish => (breaks, finish, c)
  | n + 1, c, breaks, finish =>
    let c := skipIndent indent c
    if isBreak c.peek then
      let (text, c) := c.lineBreak
      blockBreaks indent n c (breaks ++ text) c.mark
    else (breaks, finish, c)

structure BlockEnd where
  text : List Char
  lastBreak : List Char
  breaks : List Char
  finish : Mark
  cursor : Cursor

def isSpaceOrTab (ch : Char) : Bool := ch == ' ' || ch == '\t'

def blockLines (folded : Bool) (indent : Nat) : Nat → BlockEnd → BlockEnd
  | 0, done => done
  | n + 1, done =>
    let c := done.cursor
    if c.column == indent && c.peek != endChar then
      let line := c.run fun ch => !isBreakOrEnd ch
      let text := done.text ++ done.breaks ++ line
      let leading := !isSpaceOrTab c.peek
      let (lastBreak, c) := (c.advance line.length).lineBreak
      let (breaks, finish, c) := blockBreaks indent (c.rest.length + 1) c [] c.mark
      if c.column == indent && c.peek != endChar then
        let joint :=
          if folded && lastBreak == ['\n'] && leading && !isSpaceOrTab c.peek then
            if breaks.isEmpty then [' '] else []
          else lastBreak
        blockLines folded indent n { text := text ++ joint, lastBreak, breaks, finish, cursor := c }
      else { text, lastBreak, breaks, finish, cursor := c }
    else done

def block (folded : Bool) (indent : Int) (c : Cursor) : Except Failure Read := do
  let (chomping, increment, c) ← blockHeader c.next
  let c ← ignoredLine c
  let least := (max (indent + 1) 1).toNat
  let (width, breaks, finish, c) := match increment with
    | none =>
      let (breaks, widest, finish, c) := blockIndentation (c.rest.length + 1) c [] 0 c.mark
      (max least widest, breaks, finish, c)
    | some increment =>
      let width := least + increment - 1
      let (breaks, finish, c) := blockBreaks width (c.rest.length + 1) c [] c.mark
      (width, breaks, finish, c)
  let done := blockLines folded width (c.rest.length + 1)
    { text := [], lastBreak := [], breaks, finish, cursor := c }
  let tail := match chomping with
    | .strip => []
    | .clip => done.lastBreak
    | .keep => done.lastBreak ++ done.breaks
  pure { text := done.text ++ tail, finish := done.finish, broken := false, cursor := done.cursor }

end FlowLock.Yaml.Scalar
