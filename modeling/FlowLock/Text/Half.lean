/-!
# Halves of pairs

UTF-16 writes a character outside the basic plane as a pair of code units.  An escape
can name one unit of a pair by itself, and then a text holds half a character.  No
character is such a half, so it is kept in the last private plane, at the place that
its unit has in the basic one.
-/

namespace FlowLock.Text

def isHalfUnit (n : Nat) : Bool := 0xd800 ≤ n && n ≤ 0xdfff

def half (unit : Nat) : Char := Char.ofNat (0x100000 + unit)

def halfUnit? (c : Char) : Option Nat :=
  let unit := c.toNat - 0x100000
  if 0x100000 ≤ c.toNat && isHalfUnit unit then some unit else none

def code (c : Char) : Nat := (halfUnit? c).getD c.toNat

def hasHalf (s : String) : Bool := s.toList.any fun c => (halfUnit? c).isSome

end FlowLock.Text
