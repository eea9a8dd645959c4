import FlowLock.Text.Pictogram
import FlowLock.Text.Width

/-!
# What a console shows

A console takes a group in brackets such as `[bold]` for a mark, and a backslash in
front of a bracket as protection.  Messages are protected before they are printed, so
that groups in them show as they are.  Two traces of this remain: a backslash before a
bracket that starts no group is not shown, and a single backslash at the very end is
shown twice.  Names of pictograms show as pictograms, some control characters do not
show, and a tab goes to the next multiple of eight.
-/

namespace FlowLock.Console

def startsGroup (c : Char) : Bool :=
  ('a' ≤ c && c ≤ 'z') || c == '#' || c == '/' || c == '@'

/-- The group in brackets at the start, and what follows it. -/
def group? : List Char → Option (List Char × List Char)
  | '[' :: c :: cs =>
    let body := cs.takeWhile fun d => d != '[' && d != ']'
    match cs.drop body.length with
    | ']' :: after =>
      if startsGroup c && c != ']' then some ('[' :: c :: body ++ [']'], after) else none
    | _ => none
  | _ => none

/-- The pieces of a message: groups, the backslashes in front of them, and what stands
between.  `before` is the piece so far, the latest character first; every round passes
a character, so the length of the message bounds the recursion. -/
def pieces : Nat → List Char → List Char → List (List Char)
  | 0, before, _ => [before.reverse]
  | _ + 1, before, [] => [before.reverse]
  | n + 1, before, c :: cs =>
    match group? (c :: cs) with
    | some (group, after) =>
      let slashes := before.takeWhile (· == '\\')
      (before.drop slashes.length).reverse :: slashes :: group :: pieces n [] after
    | none => pieces n (c :: before) cs

/-- A piece without the backslashes in front of its brackets. -/
def unprotected : List Char → List Char
  | [] => []
  | [c] => [c]
  | c :: d :: cs =>
    if c == '\\' && d == '[' then unprotected (d :: cs) else c :: unprotected (d :: cs)

/-- A message with a single backslash at its end written twice. -/
def withFinalBackslash (cs : List Char) : List Char :=
  match cs.reverse with
  | '\\' :: '\\' :: _ => cs
  | '\\' :: _ => cs ++ ['\\']
  | _ => cs

def printed (message : String) : List Char :=
  let cs := withFinalBackslash message.toList
  ((pieces cs.length [] cs).map fun piece => Text.withPictograms (unprotected piece)).flatten

def isIgnored (c : Char) : Bool :=
  let n := c.toNat
  n == 7 || n == 8 || n == 11 || n == 12 || n == 13

/-- Characters as a terminal shows them from a column on: a tab goes to the next
multiple of eight. -/
def shownFrom : Nat → List Char → List Char
  | _, [] => []
  | column, c :: cs =>
    if isIgnored c then shownFrom column cs
    else if c == '\n' then c :: shownFrom 0 cs
    else if c == '\t' then
      let gap := 8 - column % 8
      List.replicate gap ' ' ++ shownFrom (column + gap) cs
    else c :: shownFrom (column + Text.columns c) cs

def shown (sign message : String) : String :=
  String.ofList (shownFrom 0 (sign.toList ++ printed message)) ++ "\n"

end FlowLock.Console
