import FlowLock.Text.Digit

/-!
# Integers in text

Reading of integers in a base, with the liberties that a written integer has:
blanks around it, a sign, the marker of its base, digits of any script, and single
grouping marks between digits.
-/

namespace FlowLock.Text

/-- The value of a digit in bases up to sixteen; decimal digits may come from any
script. -/
def digitValue? (c : Char) : Option Nat :=
  (decimalValue? c).or (hexValue? c)

def baseMarker? (base : Nat) : Option Char :=
  if base == 2 then some 'b' else if base == 8 then some 'o' else if base == 16 then some 'x'
  else none

def withoutMarker (base : Nat) (cs : List Char) : List Char :=
  match cs with
  | '0' :: letter :: rest =>
    if baseMarker? base == some letter.toLower then
      match rest with
      | '_' :: digits => digits
      | digits => digits
    else cs
  | _ => cs

/-- Digits with single grouping marks between them; `last` says whether a digit
has just been read. -/
def groupedDigits? (base : Nat) : Bool → Nat → List Char → Option Nat
  | last, n, [] => if last then some n else none
  | last, n, c :: cs =>
    if c == '_' then if last then groupedDigits? base false n cs else none
    else match digitValue? c with
      | some d => if d < base then groupedDigits? base true (n * base + d) cs else none
      | none => none

/-- The longest decimal numeral that is read, in digits. -/
def maxDecimalDigits : Nat := 4300

def readInt? (base : Nat) (s : String) : Option Int :=
  let cs := (trim s).toList
  let (negative, cs) := match cs with
    | '-' :: rest => (true, rest)
    | '+' :: rest => (false, rest)
    | rest => (false, rest)
  let digits := withoutMarker base cs
  if base == 10 && (digits.filter (· != '_')).length > maxDecimalDigits then none
  else (groupedDigits? base false 0 digits).map fun n =>
    if negative then -(Int.ofNat n) else Int.ofNat n

end FlowLock.Text
