import Patchbay.Number.Printer
import Patchbay.Text.Quoted
import Patchbay.Value.Basic

/-!
The text of a value.  `Value.shown` quotes every text, as messages do; `Value.text` leaves a text
that stands alone as it is.
-/

namespace Patchbay
namespace Value

/-- One item in round brackets keeps a comma, so that it is not taken for a bracketed item. -/
def roundBrackets : List String → String
  | [x] => "(" ++ x ++ ",)"
  | xs => "(" ++ ", ".intercalate xs ++ ")"

mutual

def shown : Value → String
  | .null => "None"
  | .bool true => "True"
  | .bool false => "False"
  | .int n => toString n
  | .float x => Number.floatText .plain x
  | .str s => Text.quote s
  | .list xs => "[" ++ ", ".intercalate (shownAll xs) ++ "]"
  | .tuple xs => roundBrackets (shownAll xs)
  | .dict fs => "\x7b" ++ ", ".intercalate (shownFields fs) ++ "\x7d"

def shownAll : List Value → List String
  | [] => []
  | v :: vs => shown v :: shownAll vs

def shownFields : List (Value × Value) → List String
  | [] => []
  | (k, v) :: rest => (shown k ++ ": " ++ shown v) :: shownFields rest

end

def text : Value → String
  | .str s => s
  | v => shown v

end Value
end Patchbay
