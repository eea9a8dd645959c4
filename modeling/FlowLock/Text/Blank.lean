/-!
# Blank characters and trimming

A character is *blank* when it separates words: the ASCII controls from tab to
carriage return, the four ASCII separators, the space, and the spaces and line
marks of the other scripts.  Trimming takes blanks off the ends of a text and
never touches its middle.
-/

namespace FlowLock.Text

def inRanges (table : List (Nat × Nat)) (n : Nat) : Bool :=
  table.any fun range => range.1 ≤ n && n ≤ range.2

/-- Whether a code point lies in a class that is given by the lengths of its runs: of code points
outside the class and inside it, in turn. -/
def inRuns : List Nat → Nat → Bool
  | outside :: inside :: runs, n =>
    if n < outside then false
    else if n < outside + inside then true
    else inRuns runs (n - (outside + inside))
  | _, _ => false

/-- The numbers in a row of a table: a small letter is one below 26, a capital one below 52, and
a larger one stands in digits, with a blank between two of them. -/
def lengthsFrom : Option Nat → List Char → List Nat
  | read, [] => read.toList
  | read, c :: cs =>
    if c.isDigit then lengthsFrom (some (10 * read.getD 0 + (c.toNat - '0'.toNat))) cs
    else
      read.toList ++
        (if c.isLower then [c.toNat - 'a'.toNat]
         else if c.isUpper then [26 + (c.toNat - 'A'.toNat)] else []) ++
        lengthsFrom none cs

def lengths (row : String) : List Nat := lengthsFrom none row.toList

def blankRanges : List (Nat × Nat) :=
  [(0x9, 0xd), (0x1c, 0x20), (0x85, 0x85), (0xa0, 0xa0), (0x1680, 0x1680), (0x2000, 0x200a),
   (0x2028, 0x2029), (0x202f, 0x202f), (0x205f, 0x205f), (0x3000, 0x3000)]

def isBlank (c : Char) : Bool :=
  inRanges blankRanges c.toNat

/-- A list without its longest tail of members of a class. -/
def dropEndWhile (p : Char → Bool) (cs : List Char) : List Char :=
  (cs.reverse.dropWhile p).reverse

def trimStartWhere (p : Char → Bool) (s : String) : String :=
  String.ofList (s.toList.dropWhile p)

def trimEndWhere (p : Char → Bool) (s : String) : String :=
  String.ofList (dropEndWhile p s.toList)

def trimWhere (p : Char → Bool) (s : String) : String :=
  String.ofList (dropEndWhile p (s.toList.dropWhile p))

def trimEnd (s : String) : String := trimEndWhere isBlank s

def trim (s : String) : String := trimWhere isBlank s

/-- Whether a text holds nothing but blanks; the empty text does. -/
def isAllBlank (s : String) : Bool := s.toList.all isBlank

end FlowLock.Text
