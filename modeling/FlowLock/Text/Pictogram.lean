import FlowLock.Text.CaseMap
import FlowLock.Text.Digit
import FlowLock.Text.Pictogram.Names
import FlowLock.Text.Search

/-!
# Pictograms by name

A terminal shows a name between colons as the pictogram of that name.  A name that has
none stays as it is written.
-/

namespace FlowLock.Text

open String

def charOfCode (code : String) : Char :=
  match code.toList with
  | ['j'] => Char.ofNat 0x200d
  | ['v'] => Char.ofNat 0xfe0f
  | [letter] => Char.ofNat (0x1f1e6 + (letter.toNat - 'A'.toNat))
  | digits =>
    let n := (digits.filterMap hexValue?).foldl (fun n d => 16 * n + d) 0
    Char.ofNat (if digits.length == 3 then 0x1f000 + n else n)

/-- The skin tones: what they are called at the end of a name, and their code points. -/
def skinTones : List (String × String) :=
  [("dark_skin_tone", "3ff"), ("light_skin_tone", "3fb"), ("medium-dark_skin_tone", "3fe"),
   ("medium-light_skin_tone", "3fc"), ("medium_skin_tone", "3fd")]

/-- A pictogram in a skin tone, which takes the place of a selector. -/
def withTone (tone : String) : List String → List String
  | code :: "v" :: codes => code :: tone :: codes
  | code :: codes => code :: tone :: codes
  | [] => []

def ofWoman (codes : List String) : List String :=
  codes.map fun code => if code == "468" then "469" else if code == "2642" then "2640" else code

/-- What an entry gives names to: flags have two names, men and women differ by one
letter, and skin tones are added at the end. -/
def entryNames (key : String) (text : List Char) : List (String × List String) :=
  let called :=
    if text.all Char.isUpper then
      let flag := text.map fun c => c.toString
      [(key, flag), ("flag_for_" ++ key, flag)]
    else
      let codes := splitOn (ofList (text.dropWhile (· == '~'))) '+'
      let woman := ofWoman codes
      if startsWith key "man_" && woman != codes then [(key, codes), ("wo" ++ key, woman)]
      else [(key, codes)]
  if text.head? == some '~' then
    called ++ called.flatMap fun e =>
      skinTones.map fun tone => (e.1 ++ "_" ++ tone.1, withTone tone.2 e.2)
  else called

def pieceOf (c : Char) : List Char :=
  if c.isUpper then (pictogramPieces.getD (c.toNat - 'A'.toNat) "").toList else [c]

/-- The name of an entry of the table, given the name before it, and its code points. -/
def entryParts (before entry : String) : String × List Char :=
  match splitOnceList '=' entry.toList with
  | some (count :: rest, codes) =>
    (ofList (before.toList.take (count.toNat - 'a'.toNat) ++ rest.flatMap pieceOf), codes)
  | _ => (before, [])

def findPictogram? (name : String) : String → List String → Option (List Char)
  | _, [] => none
  | before, entry :: entries =>
    let (key, text) := entryParts before entry
    match (entryNames key text).find? fun e => e.1 == name with
    | some e => some (e.2.map charOfCode)
    | none => findPictogram? name key entries

def pictogram? (name : String) : Option (List Char) :=
  findPictogram? (lower name) "" ((wordsList isBlank pictogramTable.toList).map ofList)

/-- The name in front of a wish for a coloured or a plain picture, and the character
that passes the wish on. -/
def pictogramParts (name : String) : String × List Char :=
  if endsWith name "-emoji" then (dropLastChars name 6, [Char.ofNat 0xfe0f])
  else if endsWith name "-text" then (dropLastChars name 5, [Char.ofNat 0xfe0e])
  else (name, [])

def shownName (name : List Char) : List Char :=
  let (plain, wish) := pictogramParts (ofList name)
  match pictogram? plain with
  | some picture => picture ++ wish
  | none => ':' :: name ++ [':']

/-- The characters between a colon and the next, if no blank is among them. -/
def colonName? (cs : List Char) : Option (List Char) :=
  let name := cs.takeWhile fun c => c != ':' && !isBlank c
  if cs.getD name.length ' ' == ':' then some name else none

/-- A text with the pictograms in it; `skip` counts the characters that the last name
still covers. -/
def pictograms : Nat → List Char → List Char
  | _, [] => []
  | skip + 1, _ :: cs => pictograms skip cs
  | 0, c :: cs =>
    if c == ':' then
      match colonName? cs with
      | some name => shownName name ++ pictograms (name.length + 1) cs
      | none => c :: pictograms 0 cs
    else c :: pictograms 0 cs

def withPictograms (cs : List Char) : List Char := pictograms 0 cs

end FlowLock.Text
