import Patchbay.Number.Printer
import Patchbay.Text.Blank
import Patchbay.Text.Digit

/-!
Numbers from text.  Digits of any script count, single underscores may stand between digits, and
blanks may surround the number.
-/

namespace Patchbay
namespace Number

/-- Blanks that may surround a number: all but the information separators. -/
def isMargin (c : Char) : Bool :=
  Text.isBlank c && !(0x1C ≤ c.toNat && c.toNat ≤ 0x1F)

def stripMargin (cs : List Char) : List Char :=
  ((cs.dropWhile isMargin).reverse.dropWhile isMargin).reverse

def ofDigits (ds : List Nat) : Nat := ds.foldl (fun n d => 10 * n + d) 0

def takeSign : List Char → Bool × List Char
  | '+' :: rest => (false, rest)
  | '-' :: rest => (true, rest)
  | cs => (false, cs)

def signed (negative : Bool) (n : Nat) : Int := if negative then -(n : Int) else n

/-! ### Whole numbers -/

inductive IntegerFault where
  | malformed
  | tooLong (digits : Nat)
deriving DecidableEq, Repr

def maxIntegerDigits : Nat := 4300

/-- Digits up to the first character that is neither a digit nor an underscore.  Each underscore
has a digit before and after it, and there is at least one digit; `afterDigit` tells whether the
character before the text was one. -/
def readDigits : Bool → List Char → Option (List Nat × List Char)
  | afterDigit, [] => if afterDigit then some ([], []) else none
  | afterDigit, c :: rest =>
    match Text.digit? c with
    | some d => (readDigits true rest).map fun (ds, r) => (d :: ds, r)
    | none =>
      if c = '_' then if afterDigit then readDigits false rest else none
      else if afterDigit then some ([], c :: rest) else none

/-- The length is judged before what follows the digits. -/
def readInteger (cs : List Char) : Except IntegerFault Int :=
  let (negative, body) := takeSign (stripMargin cs)
  match readDigits false body with
  | none => .error .malformed
  | some (ds, rest) =>
    if maxIntegerDigits < ds.length then .error (.tooLong ds.length)
    else if rest.isEmpty then .ok (signed negative (ofDigits ds))
    else .error .malformed

/-! ### Doubles -/

/-- The double nearest to `mantissa * 10 ^ exponent`.  Numbers beyond the range of doubles are
recognised by their size, so that the power is never computed for them. -/
def nearestFloat (mantissa : Nat) (exponent : Int) : Float :=
  if mantissa = 0 then 0.0 else
    let top : Int := (digitChars mantissa).length + exponent
    if 310 < top then 1.0 / 0.0
    else if top < -330 then 0.0
    else Float.ofScientific mantissa (decide (exponent < 0)) exponent.natAbs

def isAsciiDigit (c : Char) : Bool := '0' ≤ c && c ≤ '9'

def ofAsciiDigits (cs : List Char) : Nat := ofDigits (cs.map fun c => c.toNat - 48)

/-- Digits of other scripts are read as the ASCII digits of the same value. -/
def toAsciiDigit (c : Char) : Char :=
  match Text.digit? c with
  | some d => Nat.digitChar d
  | none => c

/-- The text without its underscores, provided that each stands between two digits. -/
def dropUnderscores : Bool → List Char → Option (List Char)
  | _, [] => some []
  | afterDigit, '_' :: rest =>
    match rest with
    | d :: _ => if afterDigit && isAsciiDigit d then dropUnderscores false rest else none
    | [] => none
  | _, c :: rest => (dropUnderscores (isAsciiDigit c) rest).map (c :: ·)

def readExponent? : List Char → Option Int
  | [] => some 0
  | c :: rest =>
    if c = 'e' ∨ c = 'E' then
      let (negative, ds) := takeSign rest
      if !ds.isEmpty && ds.all isAsciiDigit then some (signed negative (ofAsciiDigits ds)) else none
    else none

/-- Digits with an optional point, then an optional exponent. -/
def readDecimal? (cs : List Char) : Option Float :=
  let whole := cs.takeWhile isAsciiDigit
  let rest := cs.dropWhile isAsciiDigit
  let (fraction, rest) := match rest with
    | '.' :: r => (r.takeWhile isAsciiDigit, r.dropWhile isAsciiDigit)
    | r => ([], r)
  if whole.isEmpty && fraction.isEmpty then none
  else (readExponent? rest).map fun e =>
    nearestFloat (ofAsciiDigits (whole ++ fraction)) (e - fraction.length)

/-- A decimal, or a name of an infinity or of the undefined value in any case. -/
def readFloat? (cs : List Char) : Option Float :=
  let (negative, body) := takeSign ((stripMargin cs).map toAsciiDigit)
  let name := String.ofList (body.map Char.toLower)
  let size : Option Float :=
    if name = "inf" ∨ name = "infinity" then some (1.0 / 0.0)
    else if name = "nan" then some (0.0 / 0.0)
    else (dropUnderscores false body).bind readDecimal?
  size.map fun x => if negative then -x else x

end Number
end Patchbay
