import FlowLock.Text.Digit

/-!
# UTF-8

Decoding of byte strings.  A byte string that is not UTF-8 is refused with the
place and the nature of its first fault.
-/

namespace FlowLock.Utf8

inductive Reason where
  | startByte
  | continuationByte
  | endOfData
deriving Repr, DecidableEq

/-- A fault: its nature, its first byte, the place of that byte and the number of
bytes that it covers. -/
structure Fault where
  reason : Reason
  byte : UInt8
  position : Nat
  width : Nat
deriving Repr, DecidableEq

def Reason.message : Reason → String
  | .startByte => "invalid start byte"
  | .continuationByte => "invalid continuation byte"
  | .endOfData => "unexpected end of data"

def Fault.message (f : Fault) : String :=
  let place :=
    if f.width == 1 then
      "byte 0x" ++ Text.hexPadded 2 f.byte.toNat ++ " in position " ++ toString f.position
    else
      "bytes in position " ++ toString f.position ++ "-" ++ toString (f.position + f.width - 1)
  "'utf-8' codec can't decode " ++ place ++ ": " ++ f.reason.message

def isContinuation (b : UInt8) : Bool := 0x80 ≤ b && b < 0xc0

/-- Whether the second byte suits the first: no overlong form, no surrogate, no
code point out of range. -/
def suits (first second : UInt8) : Bool :=
  isContinuation second &&
    if first == 0xe0 then 0xa0 ≤ second
    else if first == 0xed then second < 0xa0
    else if first == 0xf0 then 0x90 ≤ second
    else if first == 0xf4 then second < 0x90
    else true

/-- The number of bytes that a sequence with the given first byte has. -/
def width? (first : UInt8) : Option Nat :=
  if first < 0x80 then some 1
  else if 0xc2 ≤ first && first < 0xe0 then some 2
  else if 0xe0 ≤ first && first < 0xf0 then some 3
  else if 0xf0 ≤ first && first < 0xf5 then some 4
  else none

def payload (b : UInt8) : Nat := b.toNat % 64

/-- The rest of a sequence: `missing` continuation bytes are still to come, `done`
bytes are read, `code` is their value.  The first of the missing bytes has been
checked against the first byte where that matters. -/
def continued (first : UInt8) (position : Nat) :
    Nat → Nat → Nat → List UInt8 → Except Fault (Char × List UInt8)
  | 0, _, code, rest => .ok (Char.ofNat code, rest)
  | _ + 1, done, _, [] => .error ⟨.endOfData, first, position, done⟩
  | missing + 1, done, code, b :: rest =>
    if if done == 1 then suits first b else isContinuation b then
      continued first position missing (done + 1) (code * 64 + payload b) rest
    else .error ⟨.continuationByte, first, position, done⟩

/-- The value of the bits of a first byte that belong to the code point. -/
def leadBits (first : UInt8) : Nat → Nat
  | 1 => first.toNat
  | 2 => first.toNat % 32
  | 3 => first.toNat % 16
  | _ => first.toNat % 8

/-- The characters from a place on; `n` bounds the number of sequences. -/
def decodeFrom : Nat → Nat → List UInt8 → Except Fault (List Char)
  | _, _, [] => .ok []
  | 0, _, _ => .ok []
  | n + 1, position, b :: rest =>
    match width? b with
    | none => .error ⟨.startByte, b, position, 1⟩
    | some width => do
      let (c, after) ← continued b position (width - 1) 1 (leadBits b width) rest
      let cs ← decodeFrom n (position + width) after
      pure (c :: cs)

def decode (bytes : List UInt8) : Except Fault (List Char) :=
  decodeFrom bytes.length 0 bytes

def encode (s : String) : List UInt8 := s.toUTF8.toList

end FlowLock.Utf8
