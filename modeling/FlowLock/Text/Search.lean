/-!
# Finding, splitting and replacing

Operations on texts that look for a fixed piece.  Each is defined on lists of
characters by recursion and wrapped for `String`, so a statement about a text is
a statement about its list of characters.
-/

namespace FlowLock.Text

open String

def startsWith (s piece : String) : Bool :=
  piece.toList.isPrefixOf s.toList

def endsWith (s piece : String) : Bool :=
  piece.toList.isSuffixOf s.toList

def includesList (piece : List Char) : List Char → Bool
  | [] => piece.isEmpty
  | c :: cs => piece.isPrefixOf (c :: cs) || includesList piece cs

def includes (s piece : String) : Bool :=
  includesList piece.toList s.toList

def hasChar (s : String) (c : Char) : Bool :=
  s.toList.contains c

/-- A list of characters cut at every occurrence of a character.  The result has
one piece more than there are occurrences. -/
def splitList (sep : Char) : List Char → List (List Char)
  | [] => [[]]
  | c :: cs =>
    if c = sep then [] :: splitList sep cs
    else match splitList sep cs with
      | [] => [[c]]
      | piece :: pieces => (c :: piece) :: pieces

def splitOn (s : String) (sep : Char) : List String :=
  (splitList sep s.toList).map ofList

def lines (s : String) : List String := splitOn s '\n'

def unlines (ls : List String) : String := "\n".intercalate ls

/-- The part before the first occurrence of a character and the part after it,
or `none` when it does not occur. -/
def splitOnceList (sep : Char) : List Char → Option (List Char × List Char)
  | [] => none
  | c :: cs =>
    if c = sep then some ([], cs)
    else (splitOnceList sep cs).map fun (a, b) => (c :: a, b)

def splitOnce (s : String) (sep : Char) : Option (String × String) :=
  (splitOnceList sep s.toList).map fun (a, b) => (ofList a, ofList b)

def splitLast (s : String) (sep : Char) : Option (String × String) :=
  (splitOnceList sep s.toList.reverse).map fun (b, a) =>
    (ofList a.reverse, ofList b.reverse)

def wordsList (p : Char → Bool) : List Char → List (List Char)
  | [] => []
  | c :: cs =>
    if p c then wordsList p cs
    else match cs with
      | [] => [[c]]
      | d :: _ =>
        if p d then [c] :: wordsList p cs
        else match wordsList p cs with
          | [] => [[c]]
          | word :: words => (c :: word) :: words

/-- The first list with every occurrence of a piece replaced, left to right; the
empty piece occurs nowhere.  `skip` counts the characters still covered by the
occurrence last replaced. -/
def replaceList (piece replacement : List Char) : Nat → List Char → List Char
  | _, [] => []
  | skip + 1, _ :: cs => replaceList piece replacement skip cs
  | 0, c :: cs =>
    if !piece.isEmpty && piece.isPrefixOf (c :: cs) then
      replacement ++ replaceList piece replacement (piece.length - 1) cs
    else c :: replaceList piece replacement 0 cs

def replaceAll (s piece replacement : String) : String :=
  ofList (replaceList piece.toList replacement.toList 0 s.toList)

def replaceChar (s : String) (old new : Char) : String :=
  ofList (s.toList.map fun c => if c = old then new else c)

def dropChars (s : String) (n : Nat) : String :=
  ofList (s.toList.drop n)

def dropLastChars (s : String) (n : Nat) : String :=
  ofList (s.toList.take (s.toList.length - n))

def repeated (s : String) (n : Nat) : String :=
  join (List.replicate n s)

def padLeft (s : String) (width : Nat) : String :=
  repeated " " (width - s.length) ++ s

end FlowLock.Text
