import FlowLock.Yaml.Cursor

/-!
# What a text allows

Whether a text can be written plain, in single quotes or as a block follows from
the characters it holds and from where its blanks and line breaks stand.
-/

namespace FlowLock.Yaml

/-- Which forms a text can be written in.  Double quotes are always possible. -/
structure Analysis where
  empty : Bool
  multiline : Bool
  plain : Bool
  single : Bool
  block : Bool
deriving Repr, DecidableEq

namespace Analysis

def isWrittenBreak (c : Char) : Bool :=
  c == '\n' || c.toNat == 0x85 || c.toNat == 0x2028 || c.toNat == 0x2029

/-- Whether a character can only be written as an escape. -/
def isSpecial (c : Char) : Bool :=
  let n := Text.code c
  !(c == '\n' || (0x20 ≤ n && n ≤ 0x7e)) &&
    (c == byteOrderMark ||
      !(n == 0x85 || (0xa0 ≤ n && n ≤ 0xd7ff) || (0xe000 ≤ n && n ≤ 0xfffd) ||
        (0x10000 ≤ n && n < 0x10ffff)))

/-- Whether a character takes part in the structure of a block, given the one
before it (`none` at the start) and those after it. -/
def isIndicator (before : Option Char) (c : Char) (after : List Char) : Bool :=
  let followed := isBlankOrEnd (after.headD endChar)
  match before with
  | none =>
    "#,[]\x7b\x7d&*!|>'\"%@`".toList.contains c || ((c == '?' || c == ':' || c == '-') && followed)
  | some b => (c == ':' && followed) || (c == '#' && isBlankOrEnd b)

/-- Whether some character of a text takes part in the structure of a block. -/
def hasIndicator : Option Char → List Char → Bool
  | _, [] => false
  | before, c :: cs => isIndicator before c cs || hasIndicator (some c) cs

/-- Whether a character of the first class stands right before one of the second. -/
def hasNeighbours (p q : Char → Bool) : List Char → Bool
  | c :: d :: cs => (p c && q d) || hasNeighbours p q (d :: cs)
  | _ => false

def startsLikeSeparator (cs : List Char) : Bool :=
  ['-', '-', '-'].isPrefixOf cs || ['.', '.', '.'].isPrefixOf cs

def of (cs : List Char) : Analysis :=
  match cs with
  | [] => { empty := true, multiline := false, plain := true, single := true, block := false }
  | first :: _ =>
    let last := cs.getLastD first
    let isSpace (c : Char) := c == ' '
    let outer := isSpace first || isWrittenBreak first || isSpace last || isWrittenBreak last
    let breaks := cs.any isWrittenBreak
    let breakSpace := hasNeighbours isWrittenBreak isSpace cs
    let spaceBreak := hasNeighbours isSpace isWrittenBreak cs
    let special := cs.any isSpecial
    { empty := false
      multiline := breaks
      plain := !outer && !breaks && !special && !hasIndicator none cs && !startsLikeSeparator cs
      single := !breakSpace && !spaceBreak && !special
      block := !isSpace last && !spaceBreak && !special }

end Analysis

end FlowLock.Yaml
