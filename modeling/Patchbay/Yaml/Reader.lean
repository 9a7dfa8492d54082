import Patchbay.Value.Convert
import Patchbay.Yaml.Scalar

/-!
Documents in YAML: block and flow collections with plain and quoted scalars.  Anchors, tags, block
scalars and complex keys are refused, as is every document that is malformed.
-/

namespace Patchbay
namespace Yaml

/-! ### Characters -/

structure Cursor where
  line : Nat
  column : Nat
  rest : List Char

def isBreak (c : Char) : Bool :=
  c == '\n' || c == '\r' || c == '\x85' || c == '\u2028' || c == '\u2029'

def isAllowed (c : Char) : Bool :=
  let n := c.toNat
  n == 0x09 || n == 0x0A || n == 0x0D || (0x20 ≤ n && n ≤ 0x7E) || n == 0x85 ||
    (0xA0 ≤ n && n ≤ 0xD7FF) || (0xE000 ≤ n && n ≤ 0xFFFD) || 0x10000 ≤ n

/-- A character, or the end of the text, that ends a word. -/
def isGap : Option Char → Bool
  | none => true
  | some c => c == ' ' || c == '\t' || isBreak c

namespace Cursor

def ofChars (cs : List Char) : Cursor := ⟨0, 0, cs⟩

def peek (c : Cursor) : Option Char := c.rest.head?

def next (c : Cursor) : Cursor :=
  match c.rest with
  | [] => c
  | ch :: rest => if isBreak ch then ⟨c.line + 1, 0, rest⟩ else ⟨c.line, c.column + 1, rest⟩

/-- Some characters further, none of them a line break. -/
def advance (c : Cursor) (n : Nat) : Cursor := ⟨c.line, c.column + n, c.rest.drop n⟩

def skipSpaces (c : Cursor) : Cursor := c.advance (c.rest.takeWhile (· == ' ')).length

/-- Past spaces, comments and line breaks; `fuel` bounds the number of lines. -/
def skipLines : Nat → Cursor → Cursor
  | 0, c => c
  | fuel + 1, c =>
    let c := c.skipSpaces
    let c := if c.peek == some '#' then c.advance (c.rest.takeWhile fun ch => !isBreak ch).length
      else c
    match c.rest with
    | ch :: _ => if isBreak ch then skipLines fuel c.next else c
    | [] => c

def toToken (c : Cursor) : Cursor := c.skipLines (c.rest.length + 1)

def hasMark (c : Cursor) (mark : List Char) : Bool :=
  c.column == 0 && c.rest.take 3 == mark && isGap (c.rest.drop 3).head?

def atMark (c : Cursor) : Bool := c.hasMark ['-', '-', '-'] || c.hasMark ['.', '.', '.']

def atEnd (c : Cursor) : Bool := c.rest.isEmpty || c.atMark

def atIndicator (c : Cursor) (mark : Char) : Bool :=
  c.peek == some mark && isGap (c.rest.drop 1).head?

end Cursor

/-! ### Scalars -/

/-- The white space between two pieces of a scalar: within a line it is kept, a single line break
is a space, and further line breaks are kept. -/
structure Fold where
  text : List Char
  cursor : Cursor

/-- Line breaks and leading spaces of lines, after a first line break. -/
def skipBreaks : Nat → Nat → Cursor → Nat × Cursor
  | 0, n, c => (n, c)
  | fuel + 1, n, c =>
    let c' := c.skipSpaces
    match c'.rest with
    | ch :: _ => if isBreak ch then skipBreaks fuel (n + 1) c'.next else (n, c')
    | [] => (n, c')

def fold (c : Cursor) : Fold :=
  let spaces := c.rest.takeWhile (· == ' ')
  let c' := c.skipSpaces
  match c'.rest with
  | ch :: _ =>
    if isBreak ch then
      let (breaks, last) := skipBreaks (c'.rest.length + 1) 0 c'.next
      ⟨if breaks = 0 then [' '] else List.replicate breaks '\n', last⟩
    else ⟨spaces, c'⟩
  | [] => ⟨spaces, c'⟩

def isFlowMark (c : Char) : Bool :=
  c == ',' || c == '?' || c == '[' || c == ']' || c == '{' || c == '}'

/-- Whether a colon before `after` ends a plain scalar. -/
def isColonGap (flow : Bool) (after : Option Char) : Bool :=
  isGap after || (flow && after.any fun c => isFlowMark c && c != '?')

/-- The first characters of a plain scalar that have no space between them. -/
def plainWord (flow : Bool) : List Char → List Char
  | [] => []
  | c :: rest =>
    if isGap (some c) || (c == ':' && isColonGap flow rest.head?) || (flow && isFlowMark c) then []
    else c :: plainWord flow rest

/-- A plain scalar from `c` on.  It goes on over lines that start at column `indent` or later; the
cursor behind its last word is kept for those that need to know where it ended. -/
def plainFrom (flow : Bool) (indent : Nat) : Nat → List Char → Cursor → List Char × Cursor
  | 0, read, c => (read, c)
  | fuel + 1, read, c =>
    let word := plainWord flow c.rest
    let read := read ++ word
    let behind := c.advance word.length
    let gap := fold behind
    let stop := gap.text.isEmpty || gap.cursor.peek == some '#' || gap.cursor.atMark ||
      (!flow && gap.cursor.column < indent) || (plainWord flow gap.cursor.rest).isEmpty
    if stop then (read, behind) else plainFrom flow indent fuel (read ++ gap.text) gap.cursor

def startsPlain (flow : Bool) (c : Cursor) : Bool :=
  match c.rest with
  | [] => false
  | ch :: rest =>
    if ch == '-' then !isGap rest.head?
    else if ch == '?' || ch == ':' then !flow && !isGap rest.head?
    else !isGap (some ch) && !(",[]#&*!|>%@{}'\"`".toList.contains ch)

/-- The text after an opening apostrophe; two of them stand for one. -/
def singleQuoted : Nat → List Char → Cursor → Option (List Char × Cursor)
  | 0, _, _ => none
  | fuel + 1, read, c =>
    match c.rest with
    | [] => none
    | '\'' :: '\'' :: _ => singleQuoted fuel (read ++ ['\'']) (c.advance 2)
    | '\'' :: _ => some (read, c.advance 1)
    | ch :: _ =>
      if ch == ' ' || isBreak ch then
        let gap := fold c
        if gap.cursor.atMark then none else singleQuoted fuel (read ++ gap.text) gap.cursor
      else singleQuoted fuel (read ++ [ch]) (c.advance 1)

def escapes : List (Char × Char) :=
  [('0', '\x00'), ('a', '\x07'), ('b', '\x08'), ('t', '\t'), ('n', '\n'), ('v', '\x0b'),
    ('f', '\x0c'), ('r', '\r'), ('e', '\x1b'), (' ', ' '), ('"', '"'), ('\\', '\\'),
    ('/', '/'), ('N', '\x85'), ('_', '\xa0'), ('L', '\u2028'), ('P', '\u2029')]

/-- The numbers of hexadecimal digits after an escape. -/
def escapeWidth? : Char → Option Nat
  | 'x' => some 2
  | 'u' => some 4
  | 'U' => some 8
  | _ => none

def escapeAt? : List Char → Option (Char × Nat)
  | [] => none
  | e :: rest =>
    match escapes.lookup e, escapeWidth? e with
    | some ch, _ => some (ch, 1)
    | none, some width =>
      let ds := rest.take width
      if ds.length = width then (Json.hexNumber? ds).map fun n => (Char.ofNat n, width + 1)
      else none
    | none, none => none

def doubleQuoted : Nat → List Char → Cursor → Option (List Char × Cursor)
  | 0, _, _ => none
  | fuel + 1, read, c =>
    match c.rest with
    | [] => none
    | '"' :: _ => some (read, c.advance 1)
    | '\\' :: rest =>
      match rest with
      | ch :: _ =>
        if isBreak ch then
          let (breaks, last) := skipBreaks (rest.length + 1) 0 (c.advance 1).next
          doubleQuoted fuel (read ++ List.replicate breaks '\n') last
        else
          match escapeAt? rest with
          | some (ch, n) => doubleQuoted fuel (read ++ [ch]) (c.advance (n + 1))
          | none => none
      | [] => none
    | ch :: _ =>
      if ch == ' ' || isBreak ch then
        let gap := fold c
        if gap.cursor.atMark then none else doubleQuoted fuel (read ++ gap.text) gap.cursor
      else doubleQuoted fuel (read ++ [ch]) (c.advance 1)

def scalar? (flow : Bool) (indent : Nat) (c : Cursor) : Option (Value × Cursor) :=
  let fuel := c.rest.length + 1
  match c.rest with
  | '\'' :: _ =>
    (singleQuoted fuel [] (c.advance 1)).map fun (cs, e) => (.str (String.ofList cs), e)
  | '"' :: _ =>
    (doubleQuoted fuel [] (c.advance 1)).map fun (cs, e) => (.str (String.ofList cs), e)
  | _ =>
    if startsPlain flow c then
      let (cs, e) := plainFrom flow indent fuel [] c
      some (resolve cs, e)
    else none

/-! ### Flow collections -/

def enter (k v : Value) (fields : List (Value × Value)) : Option (List (Value × Value)) :=
  (Value.putChecked k v fields).toOption

mutual

def flowNode : Nat → Cursor → Option (Value × Cursor)
  | 0, _ => none
  | fuel + 1, c =>
    match c.rest with
    | '[' :: _ => flowItems fuel [] (c.advance 1).toToken
    | '{' :: _ => flowFields fuel [] (c.advance 1).toToken
    | _ => scalar? true 0 c

/-- What a colon brings within brackets; nothing if the item ends there. -/
def flowValue : Nat → Cursor → Option (Value × Cursor)
  | 0, _ => none
  | fuel + 1, c =>
    match c.rest with
    | ',' :: _ => some (.null, c)
    | ']' :: _ => some (.null, c)
    | '}' :: _ => some (.null, c)
    | _ => flowNode fuel c

/-- Items up to the closing bracket.  An item with a colon is a dictionary of one field. -/
def flowItems : Nat → List Value → Cursor → Option (Value × Cursor)
  | 0, _, _ => none
  | fuel + 1, read, c =>
    match c.rest with
    | ']' :: _ => some (.list read.reverse, c.advance 1)
    | _ =>
      match flowNode fuel c with
      | none => none
      | some (v, behind) =>
        let t := behind.toToken
        let item := if t.peek == some ':' && t.line == c.line then
            match flowValue fuel (t.advance 1).toToken with
            | some (x, e) => (enter v x []).map fun fields => (Value.dict fields, e.toToken)
            | none => none
          else some (v, t)
        match item with
        | none => none
        | some (v, t) =>
          match t.rest with
          | ',' :: _ => flowItems fuel (v :: read) (t.advance 1).toToken
          | ']' :: _ => some (.list (v :: read).reverse, t.advance 1)
          | _ => none

def flowFields : Nat → List (Value × Value) → Cursor → Option (Value × Cursor)
  | 0, _, _ => none
  | fuel + 1, read, c =>
    match c.rest with
    | '}' :: _ => some (.dict read, c.advance 1)
    | _ =>
      match flowNode fuel c with
      | none => none
      | some (k, behind) =>
        let t := behind.toToken
        let field := if t.peek == some ':' && t.line == c.line then
            (flowValue fuel (t.advance 1).toToken).map fun (v, e) => (v, e.toToken)
          else some (.null, t)
        match field with
        | none => none
        | some (v, t) =>
          match enter k v read with
          | none => none
          | some fields =>
            match t.rest with
            | ',' :: _ => flowFields fuel fields (t.advance 1).toToken
            | '}' :: _ => some (.dict fields, t.advance 1)
            | _ => none

end

/-! ### Block collections -/

/-- The cursor behind the colon of a key that ended at `behind`, if there is one.  A key stands on
one line. -/
def colon? (start behind : Cursor) : Option Cursor :=
  let c := behind.skipSpaces
  if start.line == c.line && c.atIndicator ':' then some (c.advance 1) else none

def key? (c : Cursor) : Option (Value × Cursor) :=
  match scalar? false (c.column + 1) c with
  | none => none
  | some (k, behind) => (colon? c behind).map fun e => (k, e)

mutual

/-- A value at a token, in a collection whose items start at column `indent - 1`.  `inline` holds
behind the colon of a key, where no block collection may start. -/
def blockNode : Nat → Nat → Bool → Cursor → Option (Value × Cursor)
  | 0, _, _, _ => none
  | fuel + 1, indent, inline, c =>
    if c.atIndicator '-' then
      if inline then none else blockItems fuel c.column false [] c
    else
      match c.rest with
      | '[' :: _ => flowNode (c.rest.length + 1) c
      | '{' :: _ => flowNode (c.rest.length + 1) c
      | _ =>
        match scalar? false indent c with
        | none => none
        | some (v, behind) =>
          match colon? c behind with
          | none => some (v, behind)
          | some _ => if inline then none else blockFields fuel c.column [] c

/-- The items of a list whose dashes stand in `column`.  Within a dictionary a list may stand in
the column of its keys, and a key then ends it. -/
def blockItems : Nat → Nat → Bool → List Value → Cursor → Option (Value × Cursor)
  | 0, _, _, _, _ => none
  | fuel + 1, column, among, read, c =>
    let behind := c.advance 1
    let t := behind.toToken
    let item := if !t.atEnd && (t.line == behind.line || column < t.column) then
        blockNode fuel (column + 1) false t
      else some (.null, behind)
    match item with
    | none => none
    | some (v, e) =>
      let t := e.toToken
      if t.atEnd || t.column < column then some (.list (v :: read).reverse, e)
      else if t.column == column && t.line != e.line && t.atIndicator '-' then
        blockItems fuel column among (v :: read) t
      else if t.column == column && among then some (.list (v :: read).reverse, e)
      else none

def blockFields : Nat → Nat → List (Value × Value) → Cursor → Option (Value × Cursor)
  | 0, _, _, _ => none
  | fuel + 1, column, read, c =>
    match key? c with
    | none => none
    | some (k, behind) =>
      let t := behind.toToken
      let value := if t.atEnd then some (.null, behind)
        else if t.line == behind.line then blockNode fuel (column + 1) true t
        else if column < t.column then blockNode fuel (column + 1) false t
        else if t.column == column && t.atIndicator '-' then blockItems fuel column true [] t
        else some (.null, behind)
      match value with
      | none => none
      | some (v, e) =>
        match enter k v read with
        | none => none
        | some fields =>
          let t := e.toToken
          if t.atEnd || t.column < column then some (.dict fields, e)
          else if t.column == column && t.line != e.line then blockFields fuel column fields t
          else none

end

/-! ### Documents -/

/-- Only blanks and comments are left, or a mark that ends the document and then only those. -/
def isDone (c : Cursor) : Bool :=
  let t := c.toToken
  if t.hasMark ['.', '.', '.'] then (t.advance 3).toToken.rest.isEmpty else t.rest.isEmpty

/-- The one document of a text; an empty one is `null`. -/
def parse (text : String) : Option Value :=
  let cs := text.toList
  if !cs.all isAllowed then none else
    let start := (Cursor.ofChars (match cs with
      | '\ufeff' :: rest => rest
      | cs => cs)).toToken
    let first := if start.hasMark ['-', '-', '-'] then (start.advance 3).toToken else start
    if first.atEnd then if isDone first then some .null else none
    else
      match blockNode (2 * cs.length + 2) 0 false first with
      | none => none
      | some (v, e) => if isDone e then some v else none

end Yaml
end Patchbay
