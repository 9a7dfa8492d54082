import Patchbay.Table
import Patchbay.Value.Convert

/-!
Colors of types.  A palette gives colors to some types; every other type gets a saturated color
from a hash of its spelling, so that the same type always has the same color.
-/

namespace Patchbay

structure Rgb where
  red : Int
  green : Int
  blue : Int
deriving DecidableEq, Repr

namespace Rgb

/-- The color of handles and wires whose type still has free parameters. -/
def unresolved : Rgb := ⟨128, 128, 128⟩

/-- All digits are written out: colors do not have the limit on the digits of whole numbers. -/
def css (c : Rgb) : String :=
  "rgb(" ++ toString c.red ++ ", " ++ toString c.green ++ ", " ++ toString c.blue ++ ")"

def toValue (c : Rgb) : Value := .list [.int c.red, .int c.green, .int c.blue]

def ofParts (r g b : Value) : Except Value.Mismatch Rgb := do
  let red ← r.toInteger
  let green ← g.toInteger
  let blue ← b.toInteger
  return ⟨red, green, blue⟩

def ofValue (v : Value) : Except Value.Mismatch Rgb := do
  let (r, g, b) ← v.threeParts
  ofParts r g b

end Rgb

/-- Colors by the spelling of types.  An entry that is no color is a fault for those who look it
up, and for no one else. -/
abbrev Palette := Table (Except Value.Mismatch Rgb)

namespace Palette

def ofColors (colors : Table Rgb) : Palette := colors.map .ok

def standardColors : Table Rgb := Table.ofList [
  ("*", ⟨255, 255, 255⟩),
  ("ref", ⟨255, 165, 0⟩),
  ("str", ⟨0, 255, 0⟩),
  ("int", ⟨0, 0, 255⟩),
  ("float", ⟨0, 255, 255⟩),
  ("bool", ⟨255, 0, 255⟩),
  ("ref<str>", ⟨128, 255, 128⟩),
  ("ref<int>", ⟨128, 128, 255⟩),
  ("ref<float>", ⟨128, 255, 255⟩),
  ("ref<bool>", ⟨255, 128, 255⟩)]

def standard : Palette := ofColors standardColors

end Palette

namespace Color

/-! ### Hash -/

def hashSeed : Nat := 0x811C9DC5

/-- One character of the hash.  The product with the prime 16777619 is a sum of shifts, of which
32 bits are kept. -/
def hashStep (h : Nat) (c : Char) : Nat :=
  let v := h ^^^ c.toNat
  (v + (v <<< 1) + (v <<< 4) + (v <<< 7) + (v <<< 8) + (v <<< 24)) % 0x100000000

def hash (s : String) : Nat := s.toList.foldl hashStep hashSeed

def signedHash (h : Nat) : Int := if 0x80000000 ≤ h then (h : Int) - 0x100000000 else h

/-! ### Hue, saturation and brightness -/

/-- Hue in degrees, saturation and brightness in percent. -/
structure Hsv where
  hue : Nat
  saturation : Nat
  brightness : Nat
deriving DecidableEq, Repr

def Hsv.ofHash (h : Nat) : Hsv :=
  { hue := h % 360
    saturation := 70 + ((signedHash h).fdiv 0x10000).natAbs % 31
    brightness := 70 + ((signedHash h).fdiv 0x1000000).natAbs % 31 }

/-- A share of the full intensity, a half rounded up. -/
def channel (share : Float) : Int := min 255 (share * 255.0 + 0.5).toUInt64.toNat

/-- The six sectors of hue mix the chroma and a second component into the three channels. -/
def Hsv.toRgb (c : Hsv) : Rgb :=
  let brightness := Float.ofNat c.brightness / 100.0
  let chroma := brightness * (Float.ofNat c.saturation / 100.0)
  let within := Float.ofNat c.hue / 60.0 - 2.0 * Float.ofNat (c.hue / 120)
  let second := chroma * (1.0 - (within - 1.0).abs)
  let base := brightness - chroma
  let (r, g, b) :=
    if c.hue < 60 then (chroma, second, 0.0)
    else if c.hue < 120 then (second, chroma, 0.0)
    else if c.hue < 180 then (0.0, chroma, second)
    else if c.hue < 240 then (0.0, second, chroma)
    else if c.hue < 300 then (second, 0.0, chroma)
    else (chroma, 0.0, second)
  ⟨channel (r + base), channel (g + base), channel (b + base)⟩

def ofSpelling (palette : Palette) (spelling : String) : Except Value.Mismatch Rgb :=
  match palette.get? spelling with
  | some entry => entry
  | none => .ok (Hsv.ofHash (hash spelling)).toRgb

end Color
end Patchbay
