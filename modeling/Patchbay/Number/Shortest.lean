import Patchbay.Number.Dyadic

/-!
The shortest decimal that reads back as a given double.  All arithmetic is on whole numbers: the
double and the ends of the interval of reals that round to it are fractions over one denominator.
-/

namespace Patchbay
namespace Number

/-- The number `digits * 10 ^ exponent`. -/
structure Decimal where
  digits : Nat
  exponent : Int
deriving DecidableEq, Repr

def digitChars (n : Nat) : List Char := Nat.toDigits 10 n

/-- The interval `low / den .. high / den` of reals that round to `value / den`.  Its ends belong
to it if `closed` holds. -/
structure Interval where
  low : Nat
  value : Nat
  high : Nat
  den : Nat
  closed : Bool

namespace Interval

/-- Ends lie halfway to the two neighbours; ties go to even mantissas. -/
def ofDyadic (d : Dyadic) : Interval :=
  let up := 1 <<< (d.exponent - 2).toNat
  { low := (4 * d.mantissa - if d.boundary then 1 else 2) * up
    value := 4 * d.mantissa * up
    high := (4 * d.mantissa + 2) * up
    den := 1 <<< (2 - d.exponent).toNat
    closed := d.mantissa % 2 = 0 }

/-- The grid `10 ^ e` brought to the interval's denominator: a point `k` of the grid is
`k * step / scale` over `den`. -/
def step (iv : Interval) (e : Int) : Nat := iv.den * Nat.pow 10 e.toNat

def scale (e : Int) : Nat := Nat.pow 10 (-e).toNat

def covers (iv : Interval) (e : Int) (k : Nat) : Bool :=
  let p := k * iv.step e
  let s := scale e
  if iv.closed then decide (iv.low * s ≤ p ∧ p ≤ iv.high * s)
  else decide (iv.low * s < p ∧ p < iv.high * s)

/-- The exponent of ten of the value's leading digit. -/
def leading (iv : Interval) : Int :=
  let guess : Int := (digitChars iv.value).length - (digitChars iv.den).length
  if iv.step guess ≤ iv.value * scale guess then guess else guess - 1

/-- The point of the grid `10 ^ e` that stands for the value: of the two neighbours of the value on
the grid, the nearer one that the interval covers. -/
def nearest? (iv : Interval) (e : Int) : Option Nat :=
  let s := iv.value * scale e
  let t := iv.step e
  let k := s / t
  let below := 2 * (s - k * t)
  match iv.covers e k, iv.covers e (k + 1) with
  | true, false => some k
  | false, true => some (k + 1)
  | true, true =>
    if below < t ∨ (below = t ∧ k % 2 = 0) then some k else some (k + 1)
  | false, false => none

end Interval

/-- Seventeen significant digits always read back. -/
def maxDigits : Nat := 17

/-- Without trailing zeros; `fuel` bounds their number. -/
def Decimal.trim : Nat → Decimal → Decimal
  | 0, d => d
  | fuel + 1, d =>
    if d.digits ≠ 0 ∧ d.digits % 10 = 0 then
      Decimal.trim fuel { digits := d.digits / 10, exponent := d.exponent + 1 }
    else d

/-- The fewest digits that read back, and of those the nearest. -/
def shortest (d : Dyadic) : Decimal :=
  if d.mantissa = 0 then { digits := 0, exponent := 0 } else
    let iv := Interval.ofDyadic d
    let top := iv.leading
    let found := (List.range maxDigits).findSome? fun (n : Nat) =>
      (iv.nearest? (top - n)).map fun k => { digits := k, exponent := top - n : Decimal }
    (found.getD { digits := 0, exponent := 0 }).trim (maxDigits + 1)

end Number
end Patchbay
