import FlowLock.Text.Digit

/-!
# Words of a shell command

A text becomes one word of a shell command by quoting it, unless all of its
characters are harmless.
-/

namespace FlowLock.Text

def isShellSafe (c : Char) : Bool :=
  isAsciiLetter c || isAsciiDigit c || "_@%+=:,./-".toList.contains c

/-- One character between single quotes; a quote is written between double quotes of
its own. -/
def shellChar (c : Char) : List Char :=
  if c = '\'' then "'\"'\"'".toList else [c]

def shellWord (s : String) : String :=
  if s.isEmpty then "''"
  else if s.toList.all isShellSafe then s
  else "'" ++ String.ofList (s.toList.flatMap shellChar) ++ "'"

end FlowLock.Text
