import Patchbay.Number.Printer
import Patchbay.Text.Quoted
import Patchbay.Value.Printer

/-!
JSON text of values.  Texts are written in ASCII; numbers that JSON does not know have names.
-/

namespace Patchbay
namespace Json

/-- Characters beyond the first plane are written as a pair of surrogates. -/
def unicodeUnits (n : Nat) : List Nat :=
  if n < 0x10000 then [n]
  else [0xD800 + (n - 0x10000) / 0x400, 0xDC00 + (n - 0x10000) % 0x400]

def escapeChar (c : Char) : List Char :=
  if c = '"' ∨ c = '\\' then ['\\', c]
  else if c = '\n' then ['\\', 'n']
  else if c = '\r' then ['\\', 'r']
  else if c = '\t' then ['\\', 't']
  else if c = '\x0c' then ['\\', 'f']
  else if c = '\x08' then ['\\', 'b']
  else if 0x20 ≤ c.toNat ∧ c.toNat ≤ 0x7E then [c]
  else (unicodeUnits c.toNat).flatMap fun n => '\\' :: 'u' :: Text.hex 4 n

def quoted (s : String) : String :=
  String.ofList ('"' :: s.toList.flatMap escapeChar ++ ['"'])

def atom : Value → String
  | .null => "null"
  | .bool true => "true"
  | .bool false => "false"
  | .int n => toString n
  | .float x => Number.floatText .document x
  | .str s => quoted s
  | v => v.shown

def key : Value → String
  | .str s => quoted s
  | v => quoted (atom v)

mutual

/-- On one line, with a space after every comma and colon. -/
def write : Value → String
  | .list vs => "[" ++ ", ".intercalate (writeAll vs) ++ "]"
  | .tuple vs => "[" ++ ", ".intercalate (writeAll vs) ++ "]"
  | .dict fs => "\x7b" ++ ", ".intercalate (writeFields fs) ++ "\x7d"
  | v => atom v

def writeAll : List Value → List String
  | [] => []
  | v :: vs => write v :: writeAll vs

def writeFields : List (Value × Value) → List String
  | [] => []
  | (k, v) :: rest => (key k ++ ": " ++ write v) :: writeFields rest

end

def newline (level : Nat) : String := "\n" ++ String.ofList (List.replicate (2 * level) ' ')

/-- Parts of a level on lines of their own between two brackets. -/
def block (level : Nat) (left right : String) (parts : List String) : String :=
  if parts.isEmpty then left ++ right
  else left ++ newline (level + 1) ++ ("," ++ newline (level + 1)).intercalate parts ++
    newline level ++ right

mutual

/-- On many lines, two spaces deeper for every level. -/
def writeIndented (level : Nat) : Value → String
  | .list vs => block level "[" "]" (writeIndentedAll (level + 1) vs)
  | .tuple vs => block level "[" "]" (writeIndentedAll (level + 1) vs)
  | .dict fs => block level "\x7b" "\x7d" (writeIndentedFields (level + 1) fs)
  | v => atom v

def writeIndentedAll (level : Nat) : List Value → List String
  | [] => []
  | v :: vs => writeIndented level v :: writeIndentedAll level vs

def writeIndentedFields (level : Nat) : List (Value × Value) → List String
  | [] => []
  | (k, v) :: rest =>
    (key k ++ ": " ++ writeIndented level v) :: writeIndentedFields level rest

end

end Json
end Patchbay
