import Patchbay.Json.Reader
import Patchbay.Text.Utf8
import Patchbay.Value.Convert

/-!
Values written as literals: numbers, quoted texts, `True`, `False`, `None`, and lists, tuples and
dictionaries of literals.  Only a text that is a literal as a whole is one.

There are no values for sets, bytes, complex numbers and the ellipsis, and no table of the names of
characters: what is written with them, or with an escape by name, stays a text.
-/

namespace Patchbay
namespace Literal

/-- A literal that was read.  A sign may stand before a number, and before nothing else; fields of
dictionaries are kept as they were written. -/
structure Term where
  value : Value
  isNumber : Bool := false

/-- What was read and the text behind it; nothing where no literal stands. -/
abbrev Reading (α : Type) := Option (α × List Char)

/-! ### Space -/

def isGap (c : Char) : Bool := c == ' ' || c == '\t' || c == '\x0c'

/-- Past spaces, and within brackets past line breaks and comments too.  A backslash at the end of
a line hides the line break, provided that a line follows. -/
def skip (inside : Bool) : Nat → List Char → List Char
  | 0, cs => cs
  | fuel + 1, cs =>
    match cs with
    | '\\' :: '\n' :: c :: rest => skip inside fuel (c :: rest)
    | c :: rest =>
      if isGap c then skip inside fuel rest
      else if inside && c == '\n' then skip inside fuel rest
      else if inside && c == '#' then skip inside fuel (rest.dropWhile (· ≠ '\n'))
      else cs
    | [] => []

def space (inside : Bool) (cs : List Char) : List Char := skip inside (cs.length + 1) cs

def isWordChar (c : Char) : Bool := c.isAlphanum || c == '_' || 128 ≤ c.toNat

def endsWord (cs : List Char) : Bool := !(cs.head?.any isWordChar)

/-! ### Numbers -/

/-- Digits of a class with single underscores between them; `after` tells whether a digit or a
mark that an underscore may follow stands before. -/
def digitRun (p : Char → Bool) : Bool → List Char → List Char × List Char
  | _, [] => ([], [])
  | after, c :: rest =>
    if p c then
      let (ds, r) := digitRun p true rest
      (c :: ds, r)
    else if c == '_' && after && rest.head?.any p then digitRun p false rest
    else ([], c :: rest)

def based (base : Nat) (p : Char → Bool) (cs : List Char) : Reading Term :=
  let (ds, rest) := digitRun p true cs
  if ds.isEmpty || !endsWord rest then none
  else
    let n := ds.foldl (fun n c => base * n + (Json.hexDigit? c).getD 0) 0
    some ({ value := .int n, isNumber := true }, rest)

def exponent (cs : List Char) : Option Int × List Char :=
  match cs with
  | c :: rest =>
    if c == 'e' || c == 'E' then
      let (negative, rest) := Number.takeSign rest
      let (ds, r) := digitRun Number.isAsciiDigit false rest
      if ds.isEmpty then (none, cs)
      else (some (Number.signed negative (Number.ofAsciiDigits ds)), r)
    else (none, cs)
  | [] => (none, [])

/-- A whole number does not start with a zero unless it is zero. -/
def wholeTerm (ds : List Char) : Option Term :=
  if (ds.head? == some '0' && ds.any (· ≠ '0')) || Number.maxIntegerDigits < ds.length then none
  else some { value := .int (Number.ofAsciiDigits ds), isNumber := true }

def decimal (cs : List Char) : Reading Term :=
  let (whole, rest) := digitRun Number.isAsciiDigit false cs
  let (pointed, fraction, rest) := match rest with
    | '.' :: r =>
      let (ds, r) := digitRun Number.isAsciiDigit false r
      (true, ds, r)
    | r => (false, [], r)
  if whole.isEmpty && fraction.isEmpty then none
  else
    let (e, rest) := exponent rest
    if !endsWord rest then none
    else if pointed || e.isSome then
      let x := Number.nearestFloat (Number.ofAsciiDigits (whole ++ fraction))
        (e.getD 0 - fraction.length)
      some ({ value := .float x, isNumber := true }, rest)
    else (wholeTerm whole).map fun t => (t, rest)

def isHex (c : Char) : Bool := (Json.hexDigit? c).isSome

def isOctal (c : Char) : Bool := '0' ≤ c && c ≤ '7'

def isBinary (c : Char) : Bool := c == '0' || c == '1'

def number (cs : List Char) : Reading Term :=
  match cs with
  | '0' :: c :: rest =>
    if c == 'x' || c == 'X' then based 16 isHex rest
    else if c == 'o' || c == 'O' then based 8 isOctal rest
    else if c == 'b' || c == 'B' then based 2 isBinary rest
    else decimal cs
  | _ => decimal cs

/-! ### Texts -/

def escapes : List (Char × Char) :=
  [('\\', '\\'), ('\'', '\''), ('"', '"'), ('a', '\x07'), ('b', '\x08'), ('f', '\x0c'),
    ('n', '\n'), ('r', '\r'), ('t', '\t'), ('v', '\x0b')]

def escapeWidth? : Char → Option Nat
  | 'x' => some 2
  | 'u' => some 4
  | 'U' => some 8
  | _ => none

/-- The character of a code point, if there is such a code point; half a surrogate pair becomes
U+FFFD. -/
def charOf? (n : Nat) : Option Char :=
  if 0x10FFFF < n then none
  else if 0xD800 ≤ n ∧ n ≤ 0xDFFF then some (Char.ofNat 0xFFFD)
  else some (Char.ofNat n)

/-- The characters of an escape after the backslash, and how many characters it takes.  What is no
escape stands for itself, backslash included. -/
def escapeAt (cs : List Char) : Option (List Char × Nat) :=
  match cs with
  | [] => none
  | '\n' :: _ => some ([], 1)
  | 'N' :: _ => none
  | c :: rest =>
    match escapes.lookup c, escapeWidth? c with
    | some d, _ => some ([d], 1)
    | none, some width =>
      let ds := rest.take width
      if ds.length = width then
        ((Json.hexNumber? ds).bind charOf?).map fun d => ([d], width + 1)
      else none
    | none, none =>
      let octal := (cs.take 3).takeWhile isOctal
      if octal.isEmpty then some (['\\', c], 1)
      else (charOf? (octal.foldl (fun n d => 8 * n + (d.toNat - 48)) 0)).map fun d =>
        ([d], octal.length)

/-- The text up to its closing mark, which is `close`.  A text between single marks stands on one
line. -/
def textBody (raw : Bool) (close : List Char) : Nat → List Char → List Char → Reading (List Char)
  | 0, _, _ => none
  | fuel + 1, read, cs =>
    match Json.after? close cs with
    | some rest => some (read.reverse, rest)
    | none =>
      match cs with
      | [] => none
      | '\\' :: rest =>
        if raw then
          match rest with
          | c :: rest => textBody raw close fuel (c :: '\\' :: read) rest
          | [] => none
        else
          match escapeAt rest with
          | some (ds, n) => textBody raw close fuel (ds.reverse ++ read) (rest.drop n)
          | none => none
      | c :: rest =>
        if c == '\n' && close.length == 1 then none else textBody raw close fuel (c :: read) rest

def marked (raw : Bool) (cs : List Char) : Reading (List Char) :=
  match cs with
  | q :: rest =>
    if q == '\'' || q == '"' then
      match rest with
      | a :: b :: more =>
        if a == q && b == q then textBody raw [q, q, q] (cs.length + 1) [] more
        else textBody raw [q] (cs.length + 1) [] rest
      | _ => textBody raw [q] (cs.length + 1) [] rest
    else none
  | [] => none

/-- One piece of text, which may be marked as raw. -/
def piece (cs : List Char) : Reading (List Char) :=
  match cs with
  | c :: rest =>
    if c == 'r' || c == 'R' then marked true rest
    else if c == 'u' || c == 'U' then marked false rest
    else marked false cs
  | [] => none

/-- Pieces that follow each other are one text. -/
def pieces (inside : Bool) : Nat → List Char → List Char → List Char × List Char
  | 0, read, cs => (read, cs)
  | fuel + 1, read, cs =>
    match piece (space inside cs) with
    | some (more, rest) => pieces inside fuel (read ++ more) rest
    | none => (read, cs)

/-! ### Literals -/

def words : List (String × Value) :=
  [("True", .bool true), ("False", .bool false), ("None", .null)]

def word (cs : List Char) : Reading Term :=
  words.findSome? fun (w, v) =>
    match Json.after? w.toList cs with
    | some rest => if endsWord rest then some ({ value := v }, rest) else none
    | none => none

def atom (inside : Bool) (cs : List Char) : Reading Term :=
  match piece cs with
  | some (first, rest) =>
    let (all, rest) := pieces inside (rest.length + 1) first rest
    some ({ value := .str (String.ofList all) }, rest)
  | none =>
    match word cs with
    | some r => some r
    | none => number cs

def negate : Value → Value
  | .int n => .int (-n)
  | .float x => .float (-x)
  | v => v

def maxDepth : Nat := 200

mutual

/-- A literal with `depth` brackets open around it. -/
def term : Nat → Nat → List Char → Reading Term
  | 0, _, _ => none
  | fuel + 1, depth, cs =>
    let cs := space (depth != 0) cs
    match cs with
    | '-' :: rest => signed fuel depth true rest
    | '+' :: rest => signed fuel depth false rest
    | '[' :: rest =>
      if depth < maxDepth then
        (items fuel (depth + 1) ']' [] rest).map fun ((vs, _), r) =>
          ({ value := .list vs.reverse }, r)
      else none
    | '(' :: rest =>
      if depth < maxDepth then
        (items fuel (depth + 1) ')' [] rest).map fun ((vs, single), r) =>
          (single.getD { value := .tuple vs.reverse }, r)
      else none
    | '{' :: rest => if depth < maxDepth then fields fuel (depth + 1) [] rest else none
    | _ => atom (depth != 0) cs

def signed : Nat → Nat → Bool → List Char → Reading Term
  | 0, _, _, _ => none
  | fuel + 1, depth, negative, cs =>
    match term fuel depth cs with
    | some (t, rest) =>
      if t.isNumber then some ({ value := if negative then negate t.value else t.value }, rest)
      else none
    | none => none

/-- Items up to the closing bracket, the last one first.  An item that stands alone, without a
comma, is given too. -/
def items : Nat → Nat → Char → List Value → List Char → Reading (List Value × Option Term)
  | 0, _, _, _, _ => none
  | fuel + 1, depth, close, read, cs =>
    let cs := space true cs
    if cs.head? = some close then some ((read, none), cs.drop 1)
    else
      match term fuel depth cs with
      | none => none
      | some (t, rest) =>
        match space true rest with
        | ',' :: rest => items fuel depth close (t.value :: read) rest
        | c :: rest =>
          if c = close then some ((t.value :: read, if read.isEmpty then some t else none), rest)
          else none
        | [] => none

def fields : Nat → Nat → List (Value × Value) → List Char → Reading Term
  | 0, _, _, _ => none
  | fuel + 1, depth, read, cs =>
    match space true cs with
    | '}' :: rest => some ({ value := .dict read.reverse }, rest)
    | cs =>
      match term fuel depth cs with
      | none => none
      | some (k, rest) =>
        match space true rest with
        | ':' :: rest =>
          match term fuel depth rest with
          | none => none
          | some (v, rest) =>
            match space true rest with
            | ',' :: rest => fields fuel depth ((k.value, v.value) :: read) rest
            | '}' :: rest => some ({ value := .dict ((k.value, v.value) :: read).reverse }, rest)
            | _ => none
        | _ => none

end

/-- Literals with commas between them, outside brackets, the last one first; and whether there is a
comma. -/
def bare : Nat → Bool → List Value → List Char → Reading (List Value × Bool)
  | 0, _, _, _ => none
  | fuel + 1, comma, read, cs =>
    match term (2 * cs.length + 2) 0 cs with
    | none => if comma then some ((read, true), cs) else none
    | some (t, rest) =>
      match space false rest with
      | ',' :: rest => bare fuel true (t.value :: read) rest
      | rest => some ((t.value :: read, comma), rest)

/-! ### Texts as a whole -/

/-- The space at the start of a line: how far it indents, and the rest.  A form feed starts it
anew.  Where it goes over several lines the first one that indents counts, as `outer`. -/
def margin (outer width : Nat) : List Char → Option (Nat × List Char)
  | '\\' :: '\n' :: rest =>
    if rest.isEmpty then none else margin (if outer = 0 then width else outer) width rest
  | c :: rest =>
    if c == ' ' || c == '\t' then margin outer (width + 1) rest
    else if c == '\x0c' then margin outer 0 rest
    else some (if outer = 0 then width else outer, c :: rest)
  | [] => some (if outer = 0 then width else outer, [])

/-- Past lines that hold nothing but space and comments.  What follows is not indented. -/
def bodyStart : Nat → List Char → Option (List Char)
  | 0, _ => none
  | fuel + 1, cs =>
    match margin 0 0 cs with
    | none => none
    | some (_, '\n' :: rest) => bodyStart fuel rest
    | some (_, '#' :: rest) =>
      match rest.dropWhile (· ≠ '\n') with
      | _ :: rest => bodyStart fuel rest
      | [] => some []
    | some (indent, rest) => if indent = 0 then some rest else none

/-- Nothing is left on the line, nor on those below. -/
def isBlankRest (cs : List Char) : Bool :=
  match space false cs with
  | [] => true
  | '\n' :: rest => bodyStart (rest.length + 1) rest == some []
  | '#' :: rest =>
    let below := rest.dropWhile (· ≠ '\n')
    bodyStart (below.length + 1) below == some []
  | _ => false

/-- The literal that a text is; space before it on the first line does not count. -/
def readTerm (cs : List Char) : Option Value :=
  match bodyStart (cs.length + 1) (cs.dropWhile fun c => c == ' ' || c == '\t') with
  | none => none
  | some cs =>
    match bare (cs.length + 1) false [] cs with
    | some ((read, comma), rest) =>
      if isBlankRest rest then
        if comma then some (.tuple read.reverse) else read.head?
      else none
    | none => none

mutual

/-- Enter the fields of dictionaries one after another, so that equal keys become one. -/
def settle : Value → Except Value.Mismatch Value
  | .list vs => (settleAll vs).map .list
  | .tuple vs => (settleAll vs).map .tuple
  | .dict fs => (settleFields [] fs).map .dict
  | v => .ok v

def settleAll : List Value → Except Value.Mismatch (List Value)
  | [] => .ok []
  | v :: vs => do
    let v ← settle v
    let vs ← settleAll vs
    return v :: vs

def settleFields (entered : List (Value × Value)) :
    List (Value × Value) → Except Value.Mismatch (List (Value × Value))
  | [] => .ok entered
  | (k, v) :: rest => do
    let k ← settle k
    let v ← settle v
    let entered ← Value.putChecked k v entered
    settleFields entered rest

end

/-- The value of a text: that of the literal which it is, or the text itself.  A key that cannot be
one is a fault. -/
def coerce (text : String) : Except Value.Mismatch Value :=
  if text.toList.contains '\x00' then .ok (.str text)
  else
    match readTerm (Text.unixLines text.toList) with
    | some v => settle v
    | none => .ok (.str text)

end Literal
end Patchbay
