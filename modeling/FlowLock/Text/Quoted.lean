import FlowLock.Text.Digit
import FlowLock.Text.Half
import FlowLock.Text.Printable

/-!
# Quoted literals

A text or a byte string between quotes, as messages show it.  The quote is the
single one unless the text holds single quotes and no double ones.  Inside, the
backslash, the quote and the three common controls have short escapes, and what
is not printable is shown by its number.
-/

namespace FlowLock.Text

open String

def quoteFor (cs : List Char) : Char :=
  if cs.contains '\'' && !cs.contains '"' then '"' else '\''

/-- The escape that shows a code point by its number, with as few digits as its
size class has. -/
def numericEscape (n : Nat) : String :=
  if n < 0x100 then "\\x" ++ hexPadded 2 n
  else if n < 0x10000 then "\\u" ++ hexPadded 4 n
  else "\\U" ++ hexPadded 8 n

def quotedChar (quote : Char) (c : Char) : String :=
  if c == '\\' then "\\\\"
  else if c == quote then "\\" ++ singleton quote
  else if c == '\n' then "\\n"
  else if c == '\r' then "\\r"
  else if c == '\t' then "\\t"
  else if isPrintable c then singleton c
  else numericEscape (code c)

def quoted (s : String) : String :=
  let quote := quoteFor s.toList
  singleton quote ++ join (s.toList.map (quotedChar quote)) ++ singleton quote

def quotedByte (quote : Char) (b : UInt8) : String :=
  if b.toNat < 0x80 then quotedChar quote (Char.ofNat b.toNat) else numericEscape b.toNat

def quotedBytes (bs : List UInt8) : String :=
  let quote := quoteFor (bs.map fun b => Char.ofNat b.toNat)
  "b" ++ singleton quote ++ join (bs.map (quotedByte quote)) ++
    singleton quote

end FlowLock.Text
