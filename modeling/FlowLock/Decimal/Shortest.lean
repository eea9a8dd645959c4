import FlowLock.Decimal.Double
import FlowLock.Text.Search

/-!
# The shortest decimal that reads back

A double is written with the fewest digits that read back as the same double,
and of the decimals with that many digits with the nearest one.  For each number
of digits from one to seventeen the two neighbours of the value on the grid of
such decimals are tried; seventeen digits always suffice.
-/

namespace FlowLock.Double

open String

/-- The floor of the decimal logarithm of a positive ratio, from an estimate that
is at most two too small. -/
def floorLogTen (num den : Nat) : Int :=
  let estimate : Int := (floorLog num den * 30103) / 100000 - 1
  let reaches (e : Int) : Bool :=
    if e < 0 then den ≤ num * Nat.pow 10 (-e).toNat else den * Nat.pow 10 e.toNat ≤ num
  if reaches (estimate + 2) then estimate + 2
  else if reaches (estimate + 1) then estimate + 1
  else estimate

/-- The two decimals with `n` digits around a positive ratio, as multiples of the
power of ten that comes with them; the nearer one first, and of two equally near
ones the even one. -/
def neighbours (num den n : Nat) : List Nat × Int :=
  let e := floorLogTen num den - Int.ofNat (n - 1)
  let (a, b) := if e < 0 then (num * Nat.pow 10 (-e).toNat, den) else (num, den * Nat.pow 10 e.toNat)
  let low := a / b
  let twice := 2 * (a % b)
  (if twice < b || (twice == b && low % 2 == 0) then [low, low + 1] else [low + 1, low], e)

/-- The first number of digits, counting up from `n`, at which a neighbour reads
back as the magnitude `m * 2 ^ q`. -/
def shortestFrom (m : Nat) (q : Int) (n : Nat) : Nat → Nat × Int
  | 0 => (0, 0)
  | tries + 1 =>
    let (num, den) := ratio m q
    let (candidates, e) := neighbours num den n
    match candidates.find? fun digits => ofDecimal false digits e == .finite false m q with
    | some digits => (digits, e)
    | none => shortestFrom m q (n + 1) tries

/-- Digits as one number and the power of ten that they count, for a positive
magnitude. -/
def shortest (m : Nat) (q : Int) : Nat × Int :=
  shortestFrom m q 1 17

/-- How doubles are written. -/
structure DecimalFormat where
  /-- The greatest number of digits before the point that is written positionally. -/
  maxWhole : Int
  /-- The greatest number of zeros after the point, before the first digit, that is
  written positionally. -/
  maxZeros : Int
  exponentWidth : Nat
  infinity : String
  notANumber : String

def standard : DecimalFormat :=
  { maxWhole := 16, maxZeros := 3, exponentWidth := 2, infinity := "inf", notANumber := "nan" }

def exponentText (width : Nat) (e : Int) : String :=
  let digits := toString e.natAbs
  (if e < 0 then "-" else "+") ++ Text.repeated "0" (width - digits.length) ++ digits

def stripZeros (digits : List Char) : List Char :=
  match Text.dropEndWhile (· == '0') digits with
  | [] => ['0']
  | ds => ds

def layout (n : DecimalFormat) (digits : List Char) (point : Int) : String :=
  if point > n.maxWhole || point < -n.maxZeros then
    match digits with
    | [] => ""
    | d :: rest =>
      let mantissa := if rest.isEmpty then [d] else d :: '.' :: rest
      ofList mantissa ++ "e" ++ exponentText n.exponentWidth (point - 1)
  else if point ≤ 0 then
    "0." ++ Text.repeated "0" (-point).toNat ++ ofList digits
  else
    let k := point.toNat
    let whole := digits.take k ++ List.replicate (k - digits.length) '0'
    let part := digits.drop k
    ofList whole ++ "." ++ (if part.isEmpty then "0" else ofList part)

def text (n : DecimalFormat) : Double → String
  | .nan => n.notANumber
  | .infinite s => (if s then "-" else "") ++ n.infinity
  | .finite s m q =>
    let sign := if s then "-" else ""
    if m == 0 then sign ++ "0.0"
    else
      let (digits, e) := shortest m q
      let all := (toString digits).toList
      sign ++ layout n (stripZeros all) (Int.ofNat all.length + e)

end FlowLock.Double
