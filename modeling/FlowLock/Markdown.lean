import FlowLock.Text.CaseMap
import FlowLock.Text.Search

/-!
# Markdown headings

The little of Markdown that a workflow document needs: its headings, the section
under one of them, and the title of the whole.  Lines are cut at line feeds, and
code blocks are not told apart from other text.
-/

namespace FlowLock.Markdown

open Text

structure Heading where
  level : Nat
  title : String
deriving Repr, DecidableEq

/-- Whether the rest of a heading line closes it: blanks, hashes and blanks again. -/
def isClosing (cs : List Char) : Bool :=
  ((cs.dropWhile isBlank).dropWhile (· == '#')).all isBlank

/-- The rest of a heading line up to where its closing starts. -/
def beforeClosing : List Char → List Char
  | [] => []
  | c :: cs => if isClosing (c :: cs) then [] else c :: beforeClosing cs

def titleKey (title : String) : String := lower (trim title)

/-- The heading on a line: one to six hashes at its very start, a blank, and the
title. -/
def heading? (line : String) : Option Heading :=
  let hashes := line.toList.takeWhile (· == '#')
  let rest := line.toList.dropWhile (· == '#')
  if 1 ≤ hashes.length && hashes.length ≤ 6 && (rest.head?.any isBlank) then
    some
      { level := hashes.length
        title := titleKey (String.ofList (beforeClosing (rest.dropWhile isBlank))) }
  else none

def isTitled (title line : String) : Bool :=
  (heading? line).any fun h => h.title == title

def endsSection (level : Nat) (line : String) : Bool :=
  (heading? line).any fun h => h.level ≤ level

/-- The section under the first heading with a title: the lines from the heading to
the next heading of its level or a higher one, without blanks at the end and with
one line feed. -/
def section? (text title : String) : Option String :=
  match (lines text).dropWhile fun line => !isTitled (titleKey title) line with
  | [] => none
  | first :: rest =>
    let level := ((heading? first).map (·.level)).getD 0
    let inner := rest.takeWhile fun line => !endsSection level line
    some (trimEnd (unlines (first :: inner)) ++ "\n")

def title? (text : String) : Option String :=
  match (lines text).find? fun line => startsWith (trim line) "# " with
  | none => none
  | some line =>
    let title := trim (dropChars (trim line) 2)
    if title.isEmpty then none else some title

end FlowLock.Markdown
