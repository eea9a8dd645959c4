import FlowLock.Text.Utf8
import FlowLock.Yaml.Token
import FlowLock.Yaml.Token.Scalar

/-!
# Anchors, tags and directives

Readers of the tokens that stand before a node or a document: names of anchors
and aliases, tags with their handles and percent escapes, and the version and tag
directives.
-/

namespace FlowLock.Yaml.Lexeme

open Scalar (failAt ignoredLine hexNat)

def word (c : Cursor) : Except Failure (String × Cursor) :=
  let name := c.run isWordChar
  let after := c.advance name.length
  if name.isEmpty then failAt c (.expectedWordCharacter after.peek)
  else .ok (String.ofList name, after)

def endsAnchor (ch : Char) : Bool :=
  isBlankOrEnd ch || "?:,]\x7d%@`".toList.contains ch

def anchorName (c : Cursor) : Except Failure (String × Cursor) := do
  let (name, c) ← word c.next
  if endsAnchor c.peek then pure (name, c) else failAt c (.expectedWordCharacter c.peek)

def isUriChar (ch : Char) : Bool :=
  Text.isAsciiDigit ch || Text.isAsciiLetter ch || "-;/?:@&=+$,_.!~*'()[]%".toList.contains ch

/-- The bytes of consecutive percent escapes. -/
def uriEscapes : Nat → Cursor → List UInt8 → Except Failure (List UInt8 × Cursor)
  | 0, c, codes => .ok (codes, c)
  | n + 1, c, codes =>
    if c.peek == '%' then
      let c := c.next
      let digits := [c.peek, c.peekAt 1]
      match digits.find? fun d => (Text.hexValue? d).isNone with
      | some d => failAt c (.expectedUriEscape d)
      | none => uriEscapes n (c.advance 2) (codes ++ [UInt8.ofNat (hexNat digits)])
    else .ok (codes, c)

def uriFrom : Nat → Cursor → List Char → Except Failure (List Char × Cursor)
  | 0, c, text => .ok (text, c)
  | n + 1, c, text =>
    let ordinary := c.run fun ch => isUriChar ch && ch != '%'
    let c := c.advance ordinary.length
    let text := text ++ ordinary
    if c.peek == '%' then do
      let start := c
      let (codes, c) ← uriEscapes (c.rest.length + 1) c []
      match Utf8.decode codes with
      | .ok more => uriFrom n c (text ++ more)
      | .error fault => failAt start (.undecodableUri fault.message)
    else .ok (text, c)

/-- The suffix of a tag, which is not empty. -/
def uri (c : Cursor) : Except Failure (String × Cursor) := do
  if !isUriChar c.peek then failAt c (.expectedUri c.peek)
  else
    let (text, c) ← uriFrom (c.rest.length + 1) c []
    pure (String.ofList text, c)

/-- The handle of a tag: one mark, or a word between two. -/
def tagHandle (c : Cursor) : Except Failure (String × Cursor) :=
  if c.peek != '!' then failAt c (.expectedBang c.peek)
  else if c.peekAt 1 == ' ' then .ok ("!", c.next)
  else
    let name := c.next.run isWordChar
    let after := c.next.advance name.length
    if after.peek != '!' then failAt after (.expectedBang after.peek)
    else .ok (String.ofList ('!' :: name ++ ['!']), after.next)

def tag (c : Cursor) : Except Failure (Option String × String × Cursor) := do
  let (handle, suffix, c) ←
    if c.peekAt 1 == '<' then do
      let (suffix, c) ← uri (c.advance 2)
      if c.peek == '>' then pure (none, suffix, c.next) else failAt c (.expectedAngle c.peek)
    else if isBlankOrEnd (c.peekAt 1) then pure (none, "!", c.next)
    else if (c.next.run fun ch => !isSpaceOrEnd ch).contains '!' then do
      let (handle, c) ← tagHandle c
      let (suffix, c) ← uri c
      pure (some handle, suffix, c)
    else do
      let (suffix, c) ← uri c.next
      pure (some "!", suffix, c)
  if isSpaceOrEnd c.peek then pure (handle, suffix, c) else failAt c (.expectedSpace c.peek)

def versionNumber (c : Cursor) : Except Failure (Nat × Cursor) :=
  let digits := c.run Text.isAsciiDigit
  if digits.isEmpty then failAt c (.expectedDigit c.peek)
  else .ok (digits.foldl (fun n d => n * 10 + (d.toNat - '0'.toNat)) 0, c.advance digits.length)

def version (c : Cursor) : Except Failure (Directive × Cursor) := do
  let (major, c) ← versionNumber c.skipSpaces
  if c.peek != '.' then failAt c (.expectedDigitOrPoint c.peek)
  else
    let (minor, c) ← versionNumber c.next
    if isSpaceOrEnd c.peek then pure (.version major minor, c)
    else failAt c (.expectedDigitOrSpace c.peek)

def tagExpansion (c : Cursor) : Except Failure (Directive × Cursor) := do
  let (handle, c) ← tagHandle c.skipSpaces
  if c.peek != ' ' then failAt c (.expectedSpace c.peek)
  else
    let (expansion, c) ← uri c.skipSpaces
    if isSpaceOrEnd c.peek then pure (.tag handle expansion, c)
    else failAt c (.expectedSpace c.peek)

def directive (c : Cursor) : Except Failure (Directive × Mark × Cursor) := do
  let (name, c) ← word c.next
  if !isSpaceOrEnd c.peek then failAt c (.expectedWordCharacter c.peek)
  else
    let (value, finish, c) ←
      if name == "YAML" then do
        let (value, c) ← version c
        pure (value, c.mark, c)
      else if name == "TAG" then do
        let (value, c) ← tagExpansion c
        pure (value, c.mark, c)
      else pure (Directive.other, c.mark, c.skipWhile fun ch => !isBreakOrEnd ch)
    let c ← ignoredLine c
    pure (value, finish, c)

end FlowLock.Yaml.Lexeme
