import Patchbay.Text.Printable

/-!
Quoted text as it stands in messages: `quote` puts a text between quotation marks so that every
character that cannot be shown, and every character that would end the quotation, is escaped.
-/

namespace Patchbay
namespace Text

/-- The last `width` hexadecimal digits of `n`, in lower case. -/
def hex (width n : Nat) : List Char :=
  (List.range width).reverse.map fun i => Nat.digitChar ((n >>> (4 * i)) % 16)

/-- An apostrophe is the mark, unless the text holds one and no quotation mark. -/
def quoteMark (cs : List Char) : Char :=
  if cs.contains '\'' && !cs.contains '"' then '"' else '\''

/-- The form of one character between the marks `mark`. -/
def escape (mark c : Char) : List Char :=
  if c = mark ∨ c = '\\' then ['\\', c]
  else if c = '\n' then ['\\', 'n']
  else if c = '\r' then ['\\', 'r']
  else if c = '\t' then ['\\', 't']
  else if isPrintable c then [c]
  else if c.toNat ≤ 0xFF then '\\' :: 'x' :: hex 2 c.toNat
  else if c.toNat ≤ 0xFFFF then '\\' :: 'u' :: hex 4 c.toNat
  else '\\' :: 'U' :: hex 8 c.toNat

def quoteChars (cs : List Char) : List Char :=
  quoteMark cs :: cs.flatMap (escape (quoteMark cs)) ++ [quoteMark cs]

def quote (s : String) : String := String.ofList (quoteChars s.toList)

end Text
end Patchbay
