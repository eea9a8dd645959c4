/-!
# Base 64

Bytes as letters of six bits.  Decoding passes over foreign characters.  Four
letters give three bytes; the padding ends the text; a text whose letters do not
come out even is refused.
-/

namespace FlowLock.Base64

/-! ## Encoding -/

def letter (n : Nat) : Char :=
  "ABCDEFGHIJKLMNOPQRSTUVWXYZabcdefghijklmnopqrstuvwxyz0123456789+/".toList.getD n '='

/-- The letters for a byte string, padded to groups of four. -/
def encode : List UInt8 → List Char
  | a :: b :: c :: rest =>
    let n := a.toNat * 65536 + b.toNat * 256 + c.toNat
    letter (n / 262144) :: letter (n / 4096 % 64) :: letter (n / 64 % 64) :: letter (n % 64) ::
      encode rest
  | [a, b] =>
    let n := a.toNat * 65536 + b.toNat * 256
    [letter (n / 262144), letter (n / 4096 % 64), letter (n / 64 % 64), '=']
  | [a] =>
    let n := a.toNat * 65536
    [letter (n / 262144), letter (n / 4096 % 64), '=', '=']
  | [] => []

/-- Letters in lines of seventy-six, each ended; the bound is their number. -/
def linesWithin : Nat → List Char → List Char
  | 0, _ => []
  | n + 1, cs => if cs.isEmpty then [] else cs.take 76 ++ '\n' :: linesWithin n (cs.drop 76)

def encodeLines (bytes : List UInt8) : List Char :=
  let letters := encode bytes
  linesWithin letters.length letters

/-! ## Decoding -/

inductive Fault where
  | padding
  | oneLeft (count : Nat)
deriving Repr, DecidableEq

def Fault.message : Fault → String
  | .padding => "Incorrect padding"
  | .oneLeft count =>
    "Invalid base64-encoded string: number of data characters (" ++ toString count ++
      ") cannot be 1 more than a multiple of 4"

def sixBits? (c : Char) : Option Nat :=
  if 'A' ≤ c && c ≤ 'Z' then some (c.toNat - 'A'.toNat)
  else if 'a' ≤ c && c ≤ 'z' then some (c.toNat - 'a'.toNat + 26)
  else if '0' ≤ c && c ≤ '9' then some (c.toNat - '0'.toNat + 52)
  else if c == '+' then some 62
  else if c == '/' then some 63
  else none

/-- The state between two characters: letters of the current group, padding marks
in a row, bits left over, bytes so far in reverse. -/
structure State where
  position : Nat
  pads : Nat
  left : Nat
  bytes : List UInt8

def State.letter (s : State) (bits : Nat) : State :=
  match s.position with
  | 0 => { s with position := 1, pads := 0, left := bits }
  | 1 => { position := 2, pads := 0, left := bits % 16,
           bytes := UInt8.ofNat (s.left * 4 + bits / 16) :: s.bytes }
  | 2 => { position := 3, pads := 0, left := bits % 4,
           bytes := UInt8.ofNat (s.left * 16 + bits / 4) :: s.bytes }
  | _ => { position := 0, pads := 0, left := 0,
           bytes := UInt8.ofNat (s.left * 64 + bits) :: s.bytes }

/-- The bytes of the rest of a text. -/
def decodeFrom (s : State) : List Char → Except Fault (List UInt8)
  | [] =>
    if s.position == 0 then .ok s.bytes.reverse
    else if s.position == 1 then .error (.oneLeft (s.bytes.length / 3 * 4 + 1))
    else .error .padding
  | c :: cs =>
    if c == '=' then
      if s.position ≥ 2 && s.position + s.pads + 1 ≥ 4 then .ok s.bytes.reverse
      else decodeFrom { s with pads := if s.position ≥ 2 then s.pads + 1 else s.pads } cs
    else match sixBits? c with
      | some bits => decodeFrom (s.letter bits) cs
      | none => decodeFrom s cs

def decode (cs : List Char) : Except Fault (List UInt8) :=
  decodeFrom { position := 0, pads := 0, left := 0, bytes := [] } cs

end FlowLock.Base64
