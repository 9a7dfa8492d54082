import Patchbay.Text.Blank
import Patchbay.TypeTree.Basic
import Patchbay.Value.Printer

/-!
Types from text.  A type is a label, or a label before a block of types in angle brackets that
commas divide.  A label is any text without angle brackets and commas; blanks around labels and
blocks do not count.
-/

namespace Patchbay
namespace TypeTree

inductive Flaw where
  | notText
  | invalid
  | wildcardArguments
  | emptyArgument
  /-- A bracket is closed that was not opened. -/
  | unopened
  /-- A bracket is opened that is not closed. -/
  | unclosed
  | tooDeep
deriving DecidableEq, Repr

structure SyntaxFault where
  flaw : Flaw
  text : String
deriving DecidableEq, Repr

def Flaw.message : Flaw → String
  | .notText => "type expression must be a string"
  | .invalid => "invalid type definition"
  | .wildcardArguments => "wildcard type cannot take generic arguments"
  | .emptyArgument => "empty generic argument"
  | .unopened => "unbalanced '>'"
  | .unclosed => "unbalanced '<'"
  | .tooDeep => "type expression nested too deeply"

def SyntaxFault.message (f : SyntaxFault) : String := f.flaw.message ++ ": " ++ Text.quote f.text

/-! ### Blocks -/

def segment (context : String) (cs : List Char) : Except SyntaxFault (List Char) :=
  let body := Text.strip cs
  if body.isEmpty then .error ⟨.emptyArgument, context⟩ else .ok body

/-- The segments between the commas that no bracket encloses.  `depth` brackets are open, and
`token` holds the characters of the present segment, the last one first. -/
def segments (context : String) : Nat → List Char → List Char →
    Except SyntaxFault (List (List Char))
  | depth, token, [] =>
    if depth = 0 then (segment context token.reverse).map ([·])
    else .error ⟨.unclosed, context⟩
  | depth, token, c :: rest =>
    if c = '<' then segments context (depth + 1) (c :: token) rest
    else if c = '>' then
      match depth with
      | 0 => .error ⟨.unopened, context⟩
      | d + 1 => segments context d (c :: token) rest
    else if c = ',' ∧ depth = 0 then do
      let first ← segment context token.reverse
      let others ← segments context 0 [] rest
      return first :: others
    else segments context depth (c :: token) rest

/-- Cut the inside of a block at the commas that no bracket encloses.  Faults name `source`, or
the block itself if there is none. -/
def splitArguments (block : String) (source : Option String) : Except SyntaxFault (List String) :=
  (segments (source.getD block) 0 [] block.toList).map (·.map String.ofList)

/-! ### Types -/

/-- The characters that end a label. -/
def isMark (c : Char) : Bool := c == '<' || c == '>' || c == ','

/-- A source that has the shape of a type, with the inside of its block if it has one. -/
inductive Outline where
  | bare (label : List Char)
  | applied (label inside : List Char)
deriving DecidableEq, Repr

def outline? (source : List Char) : Option Outline :=
  let label := source.takeWhile fun c => !isMark c
  if label.isEmpty then none else
    match source.dropWhile fun c => !isMark c with
    | [] => some (.bare label)
    | '<' :: body =>
      let inside := body.dropLast
      if body.getLast? = some '>' ∧ inside ≠ [] then some (.applied label inside) else none
    | _ :: _ => none

def maxNesting : Nat := 490

/-- The part of an expression that is shown if it has too many levels. -/
def shownOfDeep : Nat := 80

/-- The type that a text of at most `levels` levels spells.  `whole` is the expression that the
text is a part of. -/
def parseChars (whole : String) : Nat → List Char → Except SyntaxFault TypeTree
  | 0, _ => .error ⟨.tooDeep, String.ofList (whole.toList.take shownOfDeep)⟩
  | levels + 1, text =>
    let source := Text.strip text
    match outline? source with
    | none => .error ⟨.invalid, String.ofList source⟩
    | some (.bare label) => .ok (leaf (String.ofList (Text.strip label)))
    | some (.applied label inside) =>
      let main := String.ofList (Text.strip label)
      if main = wildcard then .error ⟨.wildcardArguments, String.ofList source⟩
      else do
        let parts ← segments (String.ofList source) 0 [] inside
        let args ← parts.mapM (parseChars whole levels)
        return .node main args

def parse (text : String) : Except SyntaxFault TypeTree := parseChars text maxNesting text.toList

/-- Only texts spell types. -/
def parseValue : Value → Except SyntaxFault TypeTree
  | .str s => parse s
  | v => .error ⟨.notText, v.shown⟩

end TypeTree
end Patchbay
