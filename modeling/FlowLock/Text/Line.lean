import FlowLock.Text.Search

/-!
# Line breaks

Three notions of a line end stand side by side in this library.  `lines` of
`Search` knows the line feed only.  `wideLines` knows every mark that ends a line
in some convention and drops it.  `toLineFeeds` turns the carriage-return
conventions into line feeds, which is how text files are read.
-/

namespace FlowLock.Text

def isWideBreak (c : Char) : Bool :=
  (0xa ≤ c.toNat && c.toNat ≤ 0xd) || (0x1c ≤ c.toNat && c.toNat ≤ 0x1e) ||
    c.toNat == 0x85 || c.toNat == 0x2028 || c.toNat == 0x2029

/-- The lines of a list of characters in the widest sense.  A carriage return and
the line feed after it end one line; a break at the very end opens no line. -/
def wideLinesList : List Char → List (List Char)
  | [] => []
  | '\r' :: '\n' :: cs => [] :: wideLinesList cs
  | c :: cs =>
    if isWideBreak c then [] :: wideLinesList cs
    else match cs with
      | [] => [[c]]
      | d :: _ =>
        if isWideBreak d then
          match wideLinesList cs with
          | _ :: rest => [c] :: rest
          | [] => [[c]]
        else match wideLinesList cs with
          | [] => [[c]]
          | line :: rest => (c :: line) :: rest

def wideLines (s : String) : List String :=
  (wideLinesList s.toList).map String.ofList

/-- Both carriage-return conventions turned into line feeds. -/
def toLineFeedsList : List Char → List Char
  | [] => []
  | '\r' :: '\n' :: cs => '\n' :: toLineFeedsList cs
  | c :: cs => (if c = '\r' then '\n' else c) :: toLineFeedsList cs

def toLineFeeds (s : String) : String :=
  String.ofList (toLineFeedsList s.toList)

end FlowLock.Text
