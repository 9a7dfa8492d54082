import Patchbay.Number.Reader
import Patchbay.Value.Convert

/-!
JSON documents from text.  Fields keep their order, whole numbers keep all their digits, and a
fault names the place at which reading stopped.
-/

namespace Patchbay
namespace Json

inductive Flaw where
  | noValue
  | noName
  | noColon
  | noComma
  | extraData
  | unterminated
  | controlCharacter
  | badEscape
  | badUnicodeEscape
  | byteOrderMark
deriving DecidableEq, Repr

def Flaw.message : Flaw → String
  | .noValue => "Expecting value"
  | .noName => "Expecting property name enclosed in double quotes"
  | .noColon => "Expecting ':' delimiter"
  | .noComma => "Expecting ',' delimiter"
  | .extraData => "Extra data"
  | .unterminated => "Unterminated string starting at"
  | .controlCharacter => "Invalid control character at"
  | .badEscape => "Invalid \\escape"
  | .badUnicodeEscape => "Invalid \\uXXXX escape"
  | .byteOrderMark => "Unexpected UTF-8 BOM (decode using utf-8-sig)"

inductive Stop where
  | at (flaw : Flaw) (position : Nat)
  /-- A whole number with more digits than are read. -/
  | longInteger (digits : Nat)
deriving DecidableEq, Repr

/-- What was read, the place after it, and the text from there on. -/
abbrev Step (α : Type) := Except Stop (α × Nat × List Char)

def isSpace (c : Char) : Bool := c == ' ' || c == '\t' || c == '\n' || c == '\r'

def skip (pos : Nat) (cs : List Char) : Nat × List Char :=
  (pos + (cs.takeWhile isSpace).length, cs.dropWhile isSpace)

def after? : List Char → List Char → Option (List Char)
  | [], cs => some cs
  | _ :: _, [] => none
  | w :: ws, c :: cs => if w = c then after? ws cs else none

/-! ### Texts -/

def hexDigit? (c : Char) : Option Nat :=
  if '0' ≤ c ∧ c ≤ '9' then some (c.toNat - 48)
  else if 'a' ≤ c ∧ c ≤ 'f' then some (c.toNat - 87)
  else if 'A' ≤ c ∧ c ≤ 'F' then some (c.toNat - 55)
  else none

def hexNumber? (cs : List Char) : Option Nat :=
  cs.foldl (fun n c => n.bind fun n => (hexDigit? c).map (16 * n + ·)) (some 0)

def simpleEscape? : Char → Option Char
  | '"' => some '"'
  | '\\' => some '\\'
  | '/' => some '/'
  | 'b' => some '\x08'
  | 'f' => some '\x0c'
  | 'n' => some '\n'
  | 'r' => some '\r'
  | 't' => some '\t'
  | _ => none

def isHighSurrogate (n : Nat) : Bool := 0xD800 ≤ n && n ≤ 0xDBFF

def isLowSurrogate (n : Nat) : Bool := 0xDC00 ≤ n && n ≤ 0xDFFF

/-- The character of a code unit; half a surrogate pair has none and becomes U+FFFD. -/
def unitChar (n : Nat) : Char :=
  if isHighSurrogate n || isLowSurrogate n then Char.ofNat 0xFFFD else Char.ofNat n

def pairChar (high low : Nat) : Char :=
  Char.ofNat (0x10000 + (high - 0xD800) * 0x400 + (low - 0xDC00))

/-- The character after `\u`, with the number of characters that it takes.  A character has to
follow the four digits.  A pair of surrogates in two escapes is one character. -/
def unicodeEscape (pos : Nat) (cs : List Char) : Except Stop (Char × Nat) :=
  match cs with
  | a :: b :: c :: d :: rest@(_ :: _) =>
    match hexNumber? [a, b, c, d] with
    | none => .error (.at .badUnicodeEscape pos)
    | some high =>
      match isHighSurrogate high, rest with
      | true, '\\' :: 'u' :: e :: f :: g :: h :: _ :: _ =>
        match hexNumber? [e, f, g, h] with
        | none => .error (.at .badUnicodeEscape (pos + 6))
        | some low =>
          if isLowSurrogate low then .ok (pairChar high low, 10) else .ok (unitChar high, 4)
      | _, _ => .ok (unitChar high, 4)
  | _ => .error (.at .badUnicodeEscape pos)

/-- The text up to the closing mark.  `start` is the place of the opening mark, `read` holds the
characters so far, the last one first, and `fuel` bounds the number of steps. -/
def textBody (start : Nat) : Nat → Nat → List Char → List Char → Step String
  | 0, _, _, _ => .error (.at .unterminated start)
  | fuel + 1, pos, read, cs =>
    match cs with
    | [] => .error (.at .unterminated start)
    | '"' :: rest => .ok (String.ofList read.reverse, pos + 1, rest)
    | '\\' :: [] => .error (.at .unterminated start)
    | '\\' :: 'u' :: rest =>
      match unicodeEscape (pos + 1) rest with
      | .error e => .error e
      | .ok (c, n) => textBody start fuel (pos + 2 + n) (c :: read) (rest.drop n)
    | '\\' :: c :: rest =>
      match simpleEscape? c with
      | none => .error (.at .badEscape pos)
      | some d => textBody start fuel (pos + 2) (d :: read) rest
    | c :: rest =>
      if c < ' ' then .error (.at .controlCharacter pos)
      else textBody start fuel (pos + 1) (c :: read) rest

def readText (pos : Nat) (cs : List Char) : Step String :=
  textBody pos (cs.length + 1) (pos + 1) [] cs

/-! ### Numbers -/

/-- The digits before a point: a zero alone, or digits that do not start with one. -/
def wholeDigits? : List Char → Option (List Char × List Char)
  | '0' :: rest => some (['0'], rest)
  | cs =>
    let ds := cs.takeWhile Number.isAsciiDigit
    if ds.isEmpty then none else some (ds, cs.dropWhile Number.isAsciiDigit)

/-- The digits after a point.  A point without digits is left for what follows. -/
def fractionDigits (cs : List Char) : List Char × List Char :=
  match cs with
  | '.' :: rest =>
    let ds := rest.takeWhile Number.isAsciiDigit
    if ds.isEmpty then ([], cs) else (ds, rest.dropWhile Number.isAsciiDigit)
  | _ => ([], cs)

/-- The exponent.  A mark without digits is left for what follows. -/
def exponent? (cs : List Char) : Option (Int × List Char) :=
  match cs with
  | c :: rest =>
    if c = 'e' ∨ c = 'E' then
      let (negative, rest) := Number.takeSign rest
      let ds := rest.takeWhile Number.isAsciiDigit
      if ds.isEmpty then none
      else some (Number.signed negative (Number.ofAsciiDigits ds),
        rest.dropWhile Number.isAsciiDigit)
    else none
  | [] => none

def readNumber (pos : Nat) (cs : List Char) : Step Value :=
  let (negative, body) := match cs with
    | '-' :: rest => (true, rest)
    | _ => (false, cs)
  match wholeDigits? body with
  | none => .error (.at .noValue pos)
  | some (whole, rest) =>
    let (fraction, rest) := fractionDigits rest
    let (exponent, rest) := match exponent? rest with
      | some (e, rest) => (some e, rest)
      | none => (none, rest)
    let next := pos + (cs.length - rest.length)
    if fraction.isEmpty && exponent.isNone then
      if Number.maxIntegerDigits < whole.length then .error (.longInteger whole.length)
      else .ok (.int (Number.signed negative (Number.ofAsciiDigits whole)), next, rest)
    else
      let size := Number.nearestFloat (Number.ofAsciiDigits (whole ++ fraction))
        (exponent.getD 0 - fraction.length)
      .ok (.float (if negative then -size else size), next, rest)

/-! ### Values -/

def words : List (String × Value) :=
  [("null", .null), ("true", .bool true), ("false", .bool false), ("NaN", .float (0.0 / 0.0)),
    ("Infinity", .float (1.0 / 0.0)), ("-Infinity", .float (-1.0 / 0.0))]

def readAtom (pos : Nat) (cs : List Char) : Step Value :=
  let word := words.findSome? fun (w, v) => (after? w.toList cs).map fun rest => (v, w.length, rest)
  match word with
  | some (v, n, rest) => .ok (v, pos + n, rest)
  | none => readNumber pos cs

mutual

/-- The value that starts at `pos`.  Every level and every item takes one unit of fuel. -/
def readValue : Nat → Nat → List Char → Step Value
  | 0, pos, _ => .error (.at .noValue pos)
  | fuel + 1, pos, cs =>
    match cs with
    | '"' :: rest =>
      match readText pos rest with
      | .error e => .error e
      | .ok (s, next, rest) => .ok (.str s, next, rest)
    | '[' :: rest =>
      match skip (pos + 1) rest with
      | (next, ']' :: rest) => .ok (.list [], next + 1, rest)
      | (next, rest) => readItems fuel next [] rest
    | '{' :: rest =>
      match skip (pos + 1) rest with
      | (next, '}' :: rest) => .ok (.dict [], next + 1, rest)
      | (next, rest) => readFields fuel next [] rest
    | _ => readAtom pos cs

/-- The items of a list up to its end; `read` holds those so far, the last one first. -/
def readItems : Nat → Nat → List Value → List Char → Step Value
  | 0, pos, _, _ => .error (.at .noValue pos)
  | fuel + 1, pos, read, cs =>
    match readValue fuel pos cs with
    | .error e => .error e
    | .ok (v, next, rest) =>
      match skip next rest with
      | (next, ']' :: rest) => .ok (.list (v :: read).reverse, next + 1, rest)
      | (next, ',' :: rest) =>
        let (next, rest) := skip (next + 1) rest
        readItems fuel next (v :: read) rest
      | (next, _) => .error (.at .noComma next)

def readFields : Nat → Nat → List (Value × Value) → List Char → Step Value
  | 0, pos, _, _ => .error (.at .noValue pos)
  | fuel + 1, pos, read, cs =>
    match cs with
    | '"' :: rest =>
      match readText pos rest with
      | .error e => .error e
      | .ok (name, next, rest) =>
        match skip next rest with
        | (next, ':' :: rest) =>
          let (next, rest) := skip (next + 1) rest
          match readValue fuel next rest with
          | .error e => .error e
          | .ok (v, next, rest) =>
            let fields := Value.putField (.str name) v read
            match skip next rest with
            | (next, '}' :: rest) => .ok (.dict fields, next + 1, rest)
            | (next, ',' :: rest) =>
              let (next, rest) := skip (next + 1) rest
              readFields fuel next fields rest
            | (next, _) => .error (.at .noComma next)
        | (next, _) => .error (.at .noColon next)
    | _ => .error (.at .noName pos)

end

/-- A document is one value with spaces around it. -/
def readDocument (cs : List Char) : Except Stop Value :=
  if cs.head? = some (Char.ofNat 0xFEFF) then .error (.at .byteOrderMark 0) else
    let (start, rest) := skip 0 cs
    match readValue (2 * cs.length + 2) start rest with
    | .error e => .error e
    | .ok (v, next, rest) =>
      match skip next rest with
      | (_, []) => .ok v
      | (next, _ :: _) => .error (.at .extraData next)

/-! ### Places -/

inductive Fault where
  | at (flaw : Flaw) (line column position : Nat)
  | longInteger (digits : Nat)
deriving DecidableEq, Repr

def Fault.message : Fault → String
  | .at flaw line column position =>
    flaw.message ++ ": line " ++ toString line ++ " column " ++ toString column ++
      " (char " ++ toString position ++ ")"
  | .longInteger n => (Value.Mismatch.longInteger n).message

/-- Lines and columns count from one, places from zero. -/
def locate (cs : List Char) (flaw : Flaw) (position : Nat) : Fault :=
  let before := cs.take position
  let column := (before.reverse.takeWhile (· ≠ '\n')).length + 1
  .at flaw (before.count '\n' + 1) column position

def parse (text : String) : Except Fault Value :=
  let cs := text.toList
  (readDocument cs).mapError fun
    | .at flaw position => locate cs flaw position
    | .longInteger n => .longInteger n

end Json
end Patchbay
