import FlowLock.Text.Digit
import FlowLock.Text.Search

/-!
# Dates and moments

Calendar dates and moments of a day, with an optional offset from universal time.
Both come from written timestamps, are compared, and are shown in three forms:
the interchange form with `T`, the plain form with a blank, and the constructor
form that names every component.
-/

namespace FlowLock

structure Date where
  year : Nat
  month : Nat
  day : Nat
deriving Repr, DecidableEq, Inhabited

/-- A moment of a day; the offset is in seconds east of universal time. -/
structure Moment where
  date : Date
  hour : Nat
  minute : Nat
  second : Nat
  microsecond : Nat
  offset : Option Int
deriving Repr, DecidableEq, Inhabited

namespace Date

def isLeap (year : Nat) : Bool :=
  year % 4 == 0 && (year % 100 != 0 || year % 400 == 0)

def daysIn (year month : Nat) : Nat :=
  match month with
  | 2 => if isLeap year then 29 else 28
  | 4 | 6 | 9 | 11 => 30
  | _ => 31

def isValid (d : Date) : Bool :=
  1 ≤ d.year && d.year ≤ 9999 && 1 ≤ d.month && d.month ≤ 12 &&
    1 ≤ d.day && d.day ≤ daysIn d.year d.month

/-- The number of days from the first day of year one. -/
def ordinal (d : Date) : Nat :=
  let y := d.year - 1
  let before := (List.range (d.month - 1)).foldl (fun n m => n + daysIn d.year (m + 1)) 0
  y * 365 + y / 4 - y / 100 + y / 400 + before + d.day

def padded (width n : Nat) : String :=
  let digits := toString n
  Text.repeated "0" (width - digits.length) ++ digits

/-- The interchange form, `2024-02-29`. -/
def text (d : Date) : String :=
  padded 4 d.year ++ "-" ++ padded 2 d.month ++ "-" ++ padded 2 d.day

def literal (d : Date) : String :=
  "datetime.date(" ++ toString d.year ++ ", " ++ toString d.month ++ ", " ++ toString d.day ++ ")"

end Date

namespace Moment

/-- Whether the parts name a moment: a valid date, a time of day, and an offset
of less than a day. -/
def isValid (t : Moment) : Bool :=
  t.date.isValid && t.hour < 24 && t.minute < 60 && t.second < 60 && t.microsecond < 1000000 &&
    match t.offset with
    | none => true
    | some s => -86400 < s && s < 86400

/-- The microseconds from the start of year one, at offset zero. -/
def instant (t : Moment) : Int :=
  let seconds := Int.ofNat (t.date.ordinal * 86400 + t.hour * 3600 + t.minute * 60 + t.second)
  (seconds - t.offset.getD 0) * 1000000 + Int.ofNat t.microsecond

/-- Moments with offsets are the same when they are the same instant; moments
without one when they show the same; the two kinds are never the same. -/
def same (t u : Moment) : Bool :=
  t.offset.isSome == u.offset.isSome && t.instant == u.instant

def offsetText (s : Int) : String :=
  let n := s.natAbs
  (if s < 0 then "-" else "+") ++ Date.padded 2 (n / 3600) ++ ":" ++ Date.padded 2 (n / 60 % 60)

/-- The written form with a separator between day and time; the fraction is
written only when there is one. -/
def textWith (separator : String) (t : Moment) : String :=
  t.date.text ++ separator ++ Date.padded 2 t.hour ++ ":" ++ Date.padded 2 t.minute ++ ":" ++
    Date.padded 2 t.second ++
    (if t.microsecond == 0 then "" else "." ++ Date.padded 6 t.microsecond) ++
    match t.offset with
    | none => ""
    | some s => offsetText s

def isoText (t : Moment) : String := textWith "T" t

def text (t : Moment) : String := textWith " " t

def offsetLiteral (s : Int) : String :=
  if s == 0 then "datetime.timezone.utc"
  else
    let days := s.fdiv 86400
    let seconds := s - days * 86400
    let dayPart := if days == 0 then [] else ["days=" ++ toString days]
    let secondPart := if seconds == 0 then [] else ["seconds=" ++ toString seconds]
    "datetime.timezone(datetime.timedelta(" ++ ", ".intercalate (dayPart ++ secondPart) ++ "))"

/-- The constructor form: seconds and microseconds are left out from the end while
they are zero. -/
def literal (t : Moment) : String :=
  let fixed := [t.date.year, t.date.month, t.date.day, t.hour, t.minute]
  let rest :=
    if t.microsecond != 0 then [t.second, t.microsecond]
    else if t.second != 0 then [t.second] else []
  let zone := match t.offset with
    | none => []
    | some s => ["tzinfo=" ++ offsetLiteral s]
  "datetime.datetime(" ++ ", ".intercalate ((fixed ++ rest).map toString ++ zone) ++ ")"

end Moment

/-! ## Written timestamps -/

inductive Timestamp where
  | day (d : Date)
  | moment (t : Moment)
deriving Repr, DecidableEq

namespace Timestamp

def asciiNat (ds : List Char) : Nat :=
  ds.foldl (fun n c => n * 10 + (c.toNat - '0'.toNat)) 0

def digits? (low high : Nat) (cs : List Char) : Option (Nat × List Char) :=
  let ds := (cs.take high).takeWhile Text.isAsciiDigit
  if ds.length < low then none
  else some (asciiNat ds, cs.drop ds.length)

def char? (c : Char) : List Char → Option (List Char)
  | [] => none
  | d :: cs => if c == d then some cs else none

def isGap (c : Char) : Bool := c == ' ' || c == '\t'

/-- The offset at the end: nothing, `Z`, or a sign with hours and optional
minutes. -/
def offset? (cs : List Char) : Option (Option Int) :=
  match cs with
  | [] => some none
  | _ =>
    match cs.dropWhile isGap with
    | ['Z'] => some (some 0)
    | sign :: rest =>
      if sign == '+' || sign == '-' then do
        let (hours, rest) ← digits? 1 2 rest
        let (minutes, rest) ← match rest with
          | ':' :: r => digits? 2 2 r
          | r => some (0, r)
        if rest.isEmpty then
          let seconds := Int.ofNat (hours * 3600 + minutes * 60)
          some (some (if sign == '-' then -seconds else seconds))
        else none
      else none
    | [] => none

def microseconds (fraction : List Char) : Nat :=
  let six := fraction.take 6
  asciiNat (six ++ List.replicate (6 - six.length) '0')

def time? (date : Date) (cs : List Char) : Option Moment := do
  let (hour, cs) ← digits? 1 2 cs
  let cs ← char? ':' cs
  let (minute, cs) ← digits? 2 2 cs
  let cs ← char? ':' cs
  let (second, cs) ← digits? 2 2 cs
  let (fraction, cs) := match cs with
    | '.' :: r => (r.takeWhile Text.isAsciiDigit, r.dropWhile Text.isAsciiDigit)
    | r => ([], r)
  let offset ← offset? cs
  pure { date, hour, minute, second, microsecond := microseconds fraction, offset }

/-- A timestamp: a date alone, or a date, `T` or blanks, a time of day with an
optional fraction, and an optional offset.  The parts may name an impossible
moment. -/
def read? (cs : List Char) : Option Timestamp := do
  let (year, cs) ← digits? 4 4 cs
  let cs ← char? '-' cs
  let (month, cs) ← digits? 1 2 cs
  let cs ← char? '-' cs
  let (dayOfMonth, cs) ← digits? 1 2 cs
  let date : Date := { year, month, day := dayOfMonth }
  match cs with
  | [] => some (.day date)
  | c :: rest =>
    if c == 'T' || c == 't' then (time? date rest).map .moment
    else if isGap c then (time? date (rest.dropWhile isGap)).map .moment
    else none

end Timestamp

end FlowLock
