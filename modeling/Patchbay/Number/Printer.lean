import Patchbay.Number.Shortest

/-!
The text of a double: the shortest digits that read back, positional while the leading digit stands
between the fourth place after the point and the sixteenth before it.
-/

namespace Patchbay
namespace Number

/-- The decisions of a number format that the digits leave open. -/
structure FloatStyle where
  /-- Leading digits from `10 ^ lowest` up to below `10 ^ limit` are written positionally. -/
  lowest : Int
  limit : Int
  infinity : String
  minusInfinity : String
  undefined : String

/-- The style of values in messages and texts. -/
def FloatStyle.plain : FloatStyle :=
  { lowest := -4, limit := 16, infinity := "inf", minusInfinity := "-inf", undefined := "nan" }

/-- The style of numbers in documents. -/
def FloatStyle.document : FloatStyle :=
  { FloatStyle.plain with
    infinity := "Infinity", minusInfinity := "-Infinity", undefined := "NaN" }

/-- Digits with the point after the first `point` of them; a point outside the digits is reached
with zeros, and something always stands on both sides of it. -/
def positional (digits : List Char) (point : Int) : List Char :=
  if point ≤ 0 then
    '0' :: '.' :: (List.replicate (-point).toNat '0' ++ digits)
  else
    let n := point.toNat
    let whole := digits.take n ++ List.replicate (n - digits.length) '0'
    let rest := digits.drop n
    whole ++ '.' :: (if rest.isEmpty then ['0'] else rest)

/-- At least two digits, after a sign. -/
def exponentChars (e : Int) : List Char :=
  let ds := digitChars e.natAbs
  (if e < 0 then '-' else '+') :: (if ds.length < 2 then '0' :: ds else ds)

def scientific (digits : List Char) (e : Int) : List Char :=
  let mantissa := match digits with
    | d :: rest@(_ :: _) => d :: '.' :: rest
    | ds => ds
  mantissa ++ 'e' :: exponentChars e

def decimalChars (style : FloatStyle) (d : Decimal) : List Char :=
  let digits := digitChars d.digits
  let point : Int := digits.length + d.exponent
  let e := point - 1
  if style.lowest ≤ e ∧ e < style.limit then positional digits point else scientific digits e

def floatText (style : FloatStyle) (x : Float) : String :=
  match Reading.ofFloat x with
  | .undefined => style.undefined
  | .infinite negative => if negative then style.minusInfinity else style.infinity
  | .finite d =>
    let body := decimalChars style (shortest d)
    String.ofList (if d.negative then '-' :: body else body)

end Number
end Patchbay
