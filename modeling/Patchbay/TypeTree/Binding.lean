import Patchbay.Table
import Patchbay.TypeTree.Printer

/-!
Generic parameters.  Bindings give types to parameters; `substitute` puts them into a type, and
`resolve` finds the bindings that make a type with parameters equal to a given one.
-/

namespace Patchbay

/-- The types that parameters stand for, in the order in which they were bound. -/
abbrev Bindings := Table TypeTree

namespace TypeTree

mutual

/-- A node with a bound label is replaced as a whole, its arguments included.  What is put in is
not substituted again. -/
def substitute (b : Bindings) : TypeTree → TypeTree
  | .node l as =>
    match b.get? l with
    | some t => t
    | none => .node l (substituteAll b as)

def substituteAll (b : Bindings) : List TypeTree → List TypeTree
  | [] => []
  | a :: as => substitute b a :: substituteAll b as

end

mutual

/-- Some label of the tree is one of the parameters. -/
def mentions (params : List String) : TypeTree → Bool
  | .node l as => params.contains l || mentionsAny params as

def mentionsAny (params : List String) : List TypeTree → Bool
  | [] => false
  | a :: as => mentions params a || mentionsAny params as

end

/-! ### Resolution -/

/-- The first place at which a type with parameters cannot become the given one. -/
inductive Obstacle where
  | mainType (expected actual : TypeTree)
  | arity (expected actual : TypeTree)
  /-- The parameter is bound to `expected` already. -/
  | conflict (parameter : String) (expected actual : TypeTree)
deriving DecidableEq, Repr

namespace Obstacle

def message : Obstacle → String
  | .mainType e a => "main type mismatch: " ++ e.label ++ " -> " ++ a.label
  | .arity e a => "generic type length mismatch: " ++ e.format ++ " -> " ++ a.format
  | .conflict p e a =>
    "conflict generic type: " ++ p ++ " -> " ++ a.format ++
      " (already bound to " ++ e.format ++ ")"

def kindName : Obstacle → String
  | .mainType .. => "main_type"
  | .arity .. => "arity"
  | .conflict .. => "conflict"

def parameter? : Obstacle → Option String
  | .conflict p _ _ => some p
  | _ => none

def expected : Obstacle → TypeTree
  | .mainType e _ => e
  | .arity e _ => e
  | .conflict _ e _ => e

def actual : Obstacle → TypeTree
  | .mainType _ a => a
  | .arity _ a => a
  | .conflict _ _ a => a

end Obstacle

/-- A parameter that is bound stays bound to the same type. -/
def bindParameter (p : String) (t : TypeTree) (b : Bindings) : Except Obstacle Bindings :=
  match b.get? p with
  | some u => if equal u t then .ok (b.insert p t) else .error (.conflict p u t)
  | none => .ok (b.insert p t)

mutual

/-- Extend `b` so that the first type becomes the second.  A parameter without arguments is bound
to all of the other type; one with arguments is bound to the label alone, and its arguments are
resolved in turn. -/
def extend (params : List String) : TypeTree → TypeTree → Bindings → Except Obstacle Bindings
  | .node l as, .node m bs, b =>
    if params.contains l then
      if as.isEmpty then bindParameter l (.node m bs) b
      else if as.length ≠ bs.length then .error (.arity (.node l as) (.node m bs))
      else
        match bindParameter l (leaf m) b with
        | .error e => .error e
        | .ok b => extendAll params as bs b
    else if l ≠ m then .error (.mainType (.node l as) (.node m bs))
    else if as.length ≠ bs.length then .error (.arity (.node l as) (.node m bs))
    else extendAll params as bs b

/-- Arguments from left to right. -/
def extendAll (params : List String) :
    List TypeTree → List TypeTree → Bindings → Except Obstacle Bindings
  | a :: as, t :: ts, b =>
    match extend params a t b with
    | .error e => .error e
    | .ok b => extendAll params as ts b
  | [], _, b => .ok b
  | _ :: _, [], b => .ok b

end

/-- The bindings of the parameters that make the first type equal to the second. -/
def resolve (params : List String) (pattern target : TypeTree) : Except Obstacle Bindings :=
  extend params pattern target ∅

end TypeTree
end Patchbay
