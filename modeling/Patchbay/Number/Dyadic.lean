/-!
The exact value of a double: a whole number times a power of two.
-/

namespace Patchbay
namespace Number

/-- The number `mantissa * 2 ^ exponent`, with a sign of its own so that the two zeros stay
apart.  `boundary` holds where the double below is only half as far away as the double above. -/
structure Dyadic where
  negative : Bool
  mantissa : Nat
  exponent : Int
  boundary : Bool
deriving DecidableEq, Repr

/-- A double is finite or one of three others. -/
inductive Reading where
  | finite (d : Dyadic)
  | infinite (negative : Bool)
  | undefined

/-- The fields of the double's bit pattern, read as a number. -/
def Reading.ofFloat (x : Float) : Reading :=
  let bits := x.toBits.toNat
  let negative := decide (bits >>> 63 = 1)
  let field : Nat := (bits >>> 52) % 2048
  let fraction : Nat := bits % (1 <<< 52)
  if field = 2047 then
    if fraction = 0 then .infinite negative else .undefined
  else if field = 0 then
    .finite { negative, mantissa := fraction, exponent := -1074, boundary := false }
  else
    .finite {
      negative
      mantissa := (1 <<< 52) + fraction
      exponent := (field : Int) - 1075
      boundary := decide (fraction = 0 ∧ 1 < field) }

namespace Dyadic

def truncate (d : Dyadic) : Int :=
  let size := if 0 ≤ d.exponent then d.mantissa <<< d.exponent.toNat
    else d.mantissa >>> (-d.exponent).toNat
  if d.negative then -(size : Int) else size

def toInt? (d : Dyadic) : Option Int :=
  if 0 ≤ d.exponent ∨ d.mantissa % (1 <<< (-d.exponent).toNat) = 0 then some d.truncate else none

end Dyadic

/-- The least magnitude of a whole number that no finite double is nearest to. -/
def overflowBound : Nat := (1 <<< 1024) - (1 <<< 970)

/-- The double nearest to a whole number, if a finite one is. -/
def ofInt? (n : Int) : Option Float :=
  if n.natAbs < overflowBound then some (Float.ofInt n) else none

end Number
end Patchbay
