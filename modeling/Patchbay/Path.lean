import Patchbay.Fault

/-!
Paths of files.  Repeated separators and single dots do not count; double dots do.
-/

namespace Patchbay

inductive PathRoot where
  | relative
  | root
  /-- Exactly two separators at the start. -/
  | doubleRoot
deriving DecidableEq, Repr

def PathRoot.text : PathRoot → String
  | .relative => ""
  | .root => "/"
  | .doubleRoot => "//"

structure Path where
  root : PathRoot
  parts : List String
deriving DecidableEq, Repr

namespace Path

/-- Cut a text at a separator.  There is always one more piece than there are separators. -/
def cut (sep : Char) : List Char → List (List Char)
  | [] => [[]]
  | c :: rest =>
    if c = sep then [] :: cut sep rest
    else
      match cut sep rest with
      | piece :: pieces => (c :: piece) :: pieces
      | [] => [[c]]

def rootOf : List Char → PathRoot
  | '/' :: '/' :: '/' :: _ => .root
  | '/' :: '/' :: _ => .doubleRoot
  | '/' :: _ => .root
  | _ => .relative

/-- Parts that do not change where a path leads. -/
def isIdle (part : List Char) : Bool := part == [] || part == ['.']

def ofText (s : String) : Path :=
  { root := rootOf s.toList
    parts := ((cut '/' s.toList).filter fun p => !isIdle p).map String.ofList }

/-- The path that leads nowhere is a dot. -/
def text (p : Path) : String :=
  if p.root = .relative ∧ p.parts = [] then "."
  else p.root.text ++ "/".intercalate p.parts

def ofValue : Value → Except Fault Path
  | .str s => .ok (ofText s)
  | v => .error (.notPath v.kind)

def name (p : Path) : String := p.parts.getLast?.getD ""

/-- The end of the name from its last dot on, unless the dot is its first or last character. -/
def suffix (p : Path) : String :=
  let back := p.name.toList.reverse
  let tail := back.takeWhile (· ≠ '.')
  let stem := back.drop (tail.length + 1)
  if tail = [] ∨ stem = [] then "" else String.ofList ('.' :: tail.reverse)

def isJson (p : Path) : Bool := p.suffix.toList.map Char.toLower == ".json".toList

end Path
end Patchbay
