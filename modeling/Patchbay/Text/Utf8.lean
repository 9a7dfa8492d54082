import Patchbay.Text.Quoted

/-!
Text from UTF-8 octets.  The first sequence that is not well formed is refused with its place.
-/

namespace Patchbay
namespace Text
namespace Utf8

inductive Flaw where
  | startByte
  | endOfData
  | continuation
deriving DecidableEq, Repr

def Flaw.message : Flaw → String
  | .startByte => "invalid start byte"
  | .endOfData => "unexpected end of data"
  | .continuation => "invalid continuation byte"

/-- The octets from `first` on, `count` of them, are not well formed; `octet` is the first. -/
structure Fault where
  flaw : Flaw
  first : Nat
  count : Nat
  octet : Nat
deriving DecidableEq, Repr

def Fault.message (f : Fault) : String :=
  let place := if f.count = 1 then
      "byte 0x" ++ String.ofList (hex 2 f.octet) ++ " in position " ++ toString f.first
    else
      "bytes in position " ++ toString f.first ++ "-" ++ toString (f.first + f.count - 1)
  "'utf-8' codec can't decode " ++ place ++ ": " ++ f.flaw.message

/-- The start of a character: the bits that its first octet gives, the number of octets owed, and
the least and greatest octet that may come next. -/
structure Lead where
  bits : Nat
  owed : Nat
  low : Nat
  high : Nat

def lead? (b : Nat) : Option Lead :=
  if b < 0x80 then some ⟨b, 0, 0x80, 0xBF⟩
  else if b < 0xC2 then none
  else if b < 0xE0 then some ⟨b - 0xC0, 1, 0x80, 0xBF⟩
  else if b < 0xF0 then
    some ⟨b - 0xE0, 2, if b = 0xE0 then 0xA0 else 0x80, if b = 0xED then 0x9F else 0xBF⟩
  else if b < 0xF5 then
    some ⟨b - 0xF0, 3, if b = 0xF0 then 0x90 else 0x80, if b = 0xF4 then 0x8F else 0xBF⟩
  else none

/-- A character of which some octets were read: its bits so far, the octets still owed, the range
of the next one, the first octet, and how many were read. -/
structure Partial where
  bits : Nat
  owed : Nat
  low : Nat
  high : Nat
  octet : Nat
  count : Nat

/-- Read on from place `pos`, between characters or within one; `read` holds the characters so
far, the last one first. -/
def decodeFrom : Nat → Option Partial → List Char → List Nat → Except Fault (List Char)
  | _, none, read, [] => .ok read.reverse
  | pos, some p, _, [] => .error ⟨.endOfData, pos - p.count, p.count, p.octet⟩
  | pos, none, read, b :: rest =>
    match lead? b with
    | none => .error ⟨.startByte, pos, 1, b⟩
    | some l =>
      if l.owed = 0 then decodeFrom (pos + 1) none (Char.ofNat l.bits :: read) rest
      else decodeFrom (pos + 1) (some ⟨l.bits, l.owed, l.low, l.high, b, 1⟩) read rest
  | pos, some p, read, b :: rest =>
    if p.low ≤ b ∧ b ≤ p.high then
      let bits := 64 * p.bits + (b - 0x80)
      if p.owed = 1 then decodeFrom (pos + 1) none (Char.ofNat bits :: read) rest
      else
        decodeFrom (pos + 1) (some ⟨bits, p.owed - 1, 0x80, 0xBF, p.octet, p.count + 1⟩) read rest
    else .error ⟨.continuation, pos - p.count, p.count, p.octet⟩

def decode (octets : List Nat) : Except Fault String :=
  (decodeFrom 0 none [] octets).map String.ofList

end Utf8

/-- Every line break becomes a line feed. -/
def unixLines : List Char → List Char
  | [] => []
  | '\r' :: '\n' :: rest => '\n' :: unixLines rest
  | '\r' :: rest => '\n' :: unixLines rest
  | c :: rest => c :: unixLines rest

end Text
end Patchbay
