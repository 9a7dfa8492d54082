import Patchbay.Json.Reader

/-!
Plain scalars of YAML: words and digits that stand for more than text.
-/

namespace Patchbay
namespace Yaml

def truthWords : List (String × Bool) :=
  [("yes", true), ("Yes", true), ("YES", true), ("no", false), ("No", false), ("NO", false),
    ("true", true), ("True", true), ("TRUE", true), ("false", false), ("False", false),
    ("FALSE", false), ("on", true), ("On", true), ("ON", true), ("off", false), ("Off", false),
    ("OFF", false)]

def nullWords : List String := ["", "~", "null", "Null", "NULL"]

/-- Not empty, and all of the class or underscores. -/
def spans (p : Char → Bool) (cs : List Char) : Bool :=
  !cs.isEmpty && cs.all fun c => p c || c == '_'

/-- The number that digits of a base spell; underscores do not count. -/
def inBase (base : Nat) (cs : List Char) : Nat :=
  (cs.filter (· ≠ '_')).foldl (fun n c => base * n + (Json.hexDigit? c).getD 0) 0

def isOctal (c : Char) : Bool := '0' ≤ c && c ≤ '7'

def isBinary (c : Char) : Bool := c == '0' || c == '1'

/-- Whole numbers without a sign: binary, hexadecimal, octal behind a zero, or decimal. -/
def magnitude? : List Char → Option Nat
  | ['0'] => some 0
  | '0' :: 'b' :: ds => if spans isBinary ds then some (inBase 2 ds) else none
  | '0' :: 'x' :: ds =>
    if spans (fun c => (Json.hexDigit? c).isSome) ds then some (inBase 16 ds) else none
  | '0' :: ds => if spans isOctal ds then some (inBase 8 ds) else none
  | d :: ds =>
    if Number.isAsciiDigit d && (ds.isEmpty || spans Number.isAsciiDigit ds) then
      some (inBase 10 (d :: ds))
    else none
  | [] => none

def integer? (cs : List Char) : Option Int :=
  let (negative, body) := Number.takeSign cs
  (magnitude? body).map (Number.signed negative)

/-- An exponent has a sign and digits. -/
def isExponent : List Char → Bool
  | [] => true
  | e :: s :: ds =>
    (e == 'e' || e == 'E') && (s == '-' || s == '+') && !ds.isEmpty && ds.all Number.isAsciiDigit
  | [_] => false

def isTail (c : Char) : Bool := Number.isAsciiDigit c || c == '_'

/-- Digits, a point, digits and an exponent.  A sign needs a digit before the point, and a point
at the start needs a digit after it. -/
def isReal (cs : List Char) : Bool :=
  let (_, body) := Number.takeSign cs
  match body with
  | '.' :: d :: rest => cs == body && Number.isAsciiDigit d && isExponent (rest.dropWhile isTail)
  | d :: rest =>
    Number.isAsciiDigit d &&
      match rest.dropWhile isTail with
      | '.' :: rest => isExponent (rest.dropWhile isTail)
      | _ => false
  | [] => false

def real? (cs : List Char) : Option Float :=
  let (negative, body) := Number.takeSign cs
  let word := String.ofList body
  if word = ".inf" ∨ word = ".Inf" ∨ word = ".INF" then
    some (if negative then -1.0 / 0.0 else 1.0 / 0.0)
  else if cs = body ∧ (word = ".nan" ∨ word = ".NaN" ∨ word = ".NAN") then some (0.0 / 0.0)
  else if isReal cs then Number.readFloat? (cs.filter (· ≠ '_'))
  else none

def resolve (cs : List Char) : Value :=
  let word := String.ofList cs
  if nullWords.contains word then .null
  else
    match truthWords.lookup word with
    | some b => .bool b
    | none =>
      match integer? cs with
      | some n => .int n
      | none =>
        match real? cs with
        | some x => .float x
        | none => .str word

end Yaml
end Patchbay
