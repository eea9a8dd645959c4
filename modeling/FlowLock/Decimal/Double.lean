import FlowLock.Text.Digit

/-!
# Double-precision numbers as exact values

A double is a sign, a mantissa and a power of two, or one of the values without
magnitude.  Keeping the parts instead of a machine word makes every operation a
statement about natural numbers: arithmetic is exact arithmetic on ratios
followed by one rounding.
-/

namespace FlowLock

/-- A double-precision number: `finite s m q` is `m * 2 ^ q` with the sign `s`. -/
inductive Double where
  | nan
  | infinite (negative : Bool)
  | finite (negative : Bool) (mantissa : Nat) (exponent : Int)
deriving Repr, DecidableEq, Inhabited

namespace Double

def minExponent : Int := -1074

def maxExponent : Int := 971

def zero (negative : Bool) : Double := .finite negative 0 minExponent

/-- `2 ^ e` for an exponent of either sign, as numerator and denominator. -/
def powerOfTwo (e : Int) : Nat × Nat :=
  if e < 0 then (1, Nat.pow 2 (-e).toNat) else (Nat.pow 2 e.toNat, 1)

/-- The floor of the binary logarithm of a positive ratio. -/
def floorLog (num den : Nat) : Int :=
  let e : Int := Int.ofNat num.log2 - Int.ofNat den.log2
  let (up, down) := powerOfTwo e
  if den * up ≤ num * down then e else e - 1

/-- The quotient rounded to the nearest natural number, halves to the even one. -/
def divToEven (num den : Nat) : Nat :=
  let m := num / den
  let r := num % den
  if 2 * r > den || (2 * r == den && m % 2 == 1) then m + 1 else m

/-- The double nearest to `num / den`, halves to the even mantissa; too large a
ratio is infinite. -/
def round (negative : Bool) (num den : Nat) : Double :=
  if num == 0 || den == 0 then zero negative
  else
    let q := max (floorLog num den - 52) minExponent
    let (up, down) := powerOfTwo q
    let m := divToEven (num * down) (den * up)
    let (m, q) := if m == Nat.pow 2 53 then (Nat.pow 2 52, q + 1) else (m, q)
    if q > maxExponent then .infinite negative else .finite negative m q

/-- The double nearest to `digits * 10 ^ e`.  Exponents far outside the range are
settled without computing the power. -/
def ofDecimal (negative : Bool) (digits : Nat) (e : Int) : Double :=
  if digits == 0 then zero negative
  else if e > 400 then .infinite negative
  else if e + Int.ofNat (digits.log2 / 3) + 1 < -400 then zero negative
  else if e < 0 then round negative digits (Nat.pow 10 (-e).toNat)
  else round negative (digits * Nat.pow 10 e.toNat) 1

def ofInt (n : Int) : Double :=
  round (n < 0) n.natAbs 1

def ratio (m : Nat) (q : Int) : Nat × Nat :=
  let (up, down) := powerOfTwo q
  (m * up, down)

def neg : Double → Double
  | .nan => .nan
  | .infinite s => .infinite !s
  | .finite s m q => .finite (!s) m q

def mul : Double → Double → Double
  | .nan, _ => .nan
  | _, .nan => .nan
  | .infinite s, .infinite t => .infinite (s != t)
  | .infinite s, .finite t m _ => if m == 0 then .nan else .infinite (s != t)
  | .finite s m _, .infinite t => if m == 0 then .nan else .infinite (s != t)
  | .finite s m q, .finite t n r =>
    let (a, b) := ratio m q
    let (c, d) := ratio n r
    round (s != t) (a * c) (b * d)

def add : Double → Double → Double
  | .nan, _ => .nan
  | _, .nan => .nan
  | .infinite s, .infinite t => if s == t then .infinite s else .nan
  | .infinite s, .finite .. => .infinite s
  | .finite .., .infinite t => .infinite t
  | .finite s m q, .finite t n r =>
    let (a, b) := ratio m q
    let (c, d) := ratio n r
    let x : Int := if s then -(Int.ofNat (a * d)) else Int.ofNat (a * d)
    let y : Int := if t then -(Int.ofNat (c * b)) else Int.ofNat (c * b)
    let sum := x + y
    if sum == 0 then zero (s && t) else round (sum < 0) sum.natAbs (b * d)

def toInt? : Double → Option Int
  | .finite s m q =>
    let (num, den) := ratio m q
    if num % den == 0 then
      let n := Int.ofNat (num / den)
      some (if s then -n else n)
    else none
  | _ => none

def same : Double → Double → Bool
  | .nan, _ => false
  | _, .nan => false
  | .finite s m q, .finite t n r => (m == 0 && n == 0) || (s == t && m == n && q == r)
  | x, y => x == y

def isZero : Double → Bool
  | .finite _ m _ => m == 0
  | _ => false

end Double

/-! ## Reading decimals -/

/-- A decimal numeral: sign, digits as one number, power of ten. -/
structure Numeral where
  negative : Bool
  digits : Nat
  exponent : Int
deriving Repr, DecidableEq

namespace Numeral

def takeDigits (cs : List Char) : List Char × List Char :=
  (cs.takeWhile Text.isDecimal, cs.dropWhile Text.isDecimal)

/-- The number that a run of digits writes; zero for the empty run. -/
def valueOf (cs : List Char) : Nat :=
  (Text.decimalNat? cs).getD 0

/-- An exponent part that takes the whole rest, or nothing at all. -/
def exponentOf? (cs : List Char) : Option Int :=
  match cs with
  | [] => some 0
  | c :: rest =>
    if c == 'e' || c == 'E' then
      let (negative, rest) := match rest with
        | '-' :: r => (true, r)
        | '+' :: r => (false, r)
        | r => (false, r)
      let (digits, tail) := takeDigits rest
      if digits.isEmpty || !tail.isEmpty then none
      else some (if negative then -(Int.ofNat (valueOf digits)) else Int.ofNat (valueOf digits))
    else none

/-- A numeral without sign: digits with an optional point somewhere, then an
optional exponent. -/
def ofUnsigned? (negative : Bool) (cs : List Char) : Option Numeral :=
  let (whole, rest) := takeDigits cs
  let (part, rest) := match rest with
    | '.' :: r => takeDigits r
    | r => ([], r)
  if whole.isEmpty && part.isEmpty then none
  else (exponentOf? rest).map fun e =>
    { negative, digits := valueOf (whole ++ part), exponent := e - Int.ofNat part.length }

end Numeral

namespace Double

/-- The double that a text writes: a decimal numeral, an infinity or a value that
is no number, with an optional sign and blanks around it. -/
def ofText? (s : String) : Option Double :=
  let cs := (Text.trim s).toList
  let (negative, cs) := match cs with
    | '-' :: r => (true, r)
    | '+' :: r => (false, r)
    | r => (false, r)
  let word := String.ofList (cs.map Char.toLower)
  if word == "inf" || word == "infinity" then some (.infinite negative)
  else if word == "nan" then some .nan
  else (Numeral.ofUnsigned? negative cs).map fun n => ofDecimal n.negative n.digits n.exponent

end Double

end FlowLock
