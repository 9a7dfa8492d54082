/-!
Blank characters and the text that is left when they are removed at both ends.
-/

namespace Patchbay
namespace Text

/-- The spaces and line breaks of Unicode, together with the four information separators
U+001C to U+001F.  Zero-width characters are not blank. -/
def isBlank (c : Char) : Bool :=
  let n := c.toNat
  (0x09 ≤ n && n ≤ 0x0D) || (0x1C ≤ n && n ≤ 0x20) || n == 0x85 || n == 0xA0 || n == 0x1680 ||
    (0x2000 ≤ n && n ≤ 0x200A) || n == 0x2028 || n == 0x2029 || n == 0x202F || n == 0x205F ||
    n == 0x3000

def stripLeft (cs : List Char) : List Char := cs.dropWhile isBlank

def stripRight (cs : List Char) : List Char := (cs.reverse.dropWhile isBlank).reverse

/-- The characters between the leading and the trailing blanks. -/
def strip (cs : List Char) : List Char := stripRight (stripLeft cs)

end Text
end Patchbay
