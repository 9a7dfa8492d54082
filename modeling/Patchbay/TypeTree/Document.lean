import Patchbay.TypeTree.Basic
import Patchbay.Value.Printer

/-!
Types in documents: a dictionary with the label under `mainType` and the list of arguments under
`genericTypes`.
-/

namespace Patchbay
namespace TypeTree

inductive ShapeFault where
  | notMapping (kind : Value.Kind)
  | noLabel
  | argumentsNotList (label : String)
  /-- A wildcard with arguments. -/
  | wildcardArguments
deriving DecidableEq, Repr

def ShapeFault.message : ShapeFault → String
  | .notMapping k => "type definition must be a mapping, got " ++ k.name
  | .noLabel => "type definition requires a non-empty 'mainType' string"
  | .argumentsNotList l => "'genericTypes' of " ++ Text.quote l ++ " must be a list"
  | .wildcardArguments => "wildcard type cannot carry generic arguments"

/-- A node, unless it is a wildcard with arguments. -/
def make (label : String) (args : List TypeTree) : Except ShapeFault TypeTree :=
  if label = wildcard ∧ args ≠ [] then .error .wildcardArguments else .ok (.node label args)

mutual

def toValue : TypeTree → Value
  | .node l as => .record [("mainType", .str l), ("genericTypes", .list (toValues as))]

def toValues : List TypeTree → List Value
  | [] => []
  | a :: as => toValue a :: toValues as

end

def documentLabel (fields : List (Value × Value)) : Except ShapeFault String :=
  match Value.named? "mainType" fields with
  | some (.str l) => if l = "" then .error .noLabel else .ok l
  | _ => .error .noLabel

mutual

/-- The label is judged first, then the arguments in order, and last whether the label may have
them. -/
def ofValue : Value → Except ShapeFault TypeTree
  | .dict fields => do
    let l ← documentLabel fields
    let as ← argsOfFields l fields
    make l as
  | v => .error (.notMapping v.kind)

/-- The arguments under `genericTypes`, none if the name is absent. -/
def argsOfFields (l : String) : List (Value × Value) → Except ShapeFault (List TypeTree)
  | [] => .ok []
  | (k, v) :: rest =>
    if Value.sameKey k (.str "genericTypes") then argsOfValue l v else argsOfFields l rest

def argsOfValue (l : String) : Value → Except ShapeFault (List TypeTree)
  | .list vs => ofValues vs
  | .tuple vs => ofValues vs
  | _ => .error (.argumentsNotList l)

def ofValues : List Value → Except ShapeFault (List TypeTree)
  | [] => .ok []
  | v :: vs => do
    let a ← ofValue v
    let as ← ofValues vs
    return a :: as

end

end TypeTree
end Patchbay
