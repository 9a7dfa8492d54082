import Patchbay.Number.Dyadic

/-!
Dynamic values: what node inputs, documents, settings and metadata are made of before their shape
is known.
-/

namespace Patchbay

/-- A value as documents hold it.  The fields of a `dict` stand in the order of their first
entering and no two of their keys are equal in the sense of `Value.sameKey`. -/
inductive Value where
  | null
  | bool (b : Bool)
  | int (n : Int)
  | float (x : Float)
  | str (s : String)
  | list (items : List Value)
  | tuple (items : List Value)
  | dict (fields : List (Value × Value))

instance : Inhabited Value := ⟨.null⟩

namespace Value

inductive Kind where
  | null
  | bool
  | int
  | float
  | str
  | list
  | tuple
  | dict
deriving DecidableEq, Repr

def Kind.name : Kind → String
  | .null => "NoneType"
  | .bool => "bool"
  | .int => "int"
  | .float => "float"
  | .str => "str"
  | .list => "list"
  | .tuple => "tuple"
  | .dict => "dict"

def kind : Value → Kind
  | .null => .null
  | .bool _ => .bool
  | .int _ => .int
  | .float _ => .float
  | .str _ => .str
  | .list _ => .list
  | .tuple _ => .tuple
  | .dict _ => .dict

/-- Nothing, zero and whatever is empty count as false. -/
def truthy : Value → Bool
  | .null => false
  | .bool b => b
  | .int n => n != 0
  | .float x => x != 0.0
  | .str s => s != ""
  | .list xs => !xs.isEmpty
  | .tuple xs => !xs.isEmpty
  | .dict fs => !fs.isEmpty

/-! ### Keys -/

/-- The whole number that a value equals as a key: truth values count as zero and one. -/
def whole? : Value → Option Int
  | .bool b => some (if b then 1 else 0)
  | .int n => some n
  | .float x =>
    match Number.Reading.ofFloat x with
    | .finite d => d.toInt?
    | _ => none
  | _ => none

mutual

/-- Numbers of any kind are one key if they are equal; all else is compared within its kind. -/
def sameKey : Value → Value → Bool
  | .null, .null => true
  | .str s, .str t => s == t
  | .tuple xs, .tuple ys => sameKeys xs ys
  | .float x, .float y => x == y || x.toBits == y.toBits
  | v, w =>
    match v.whole?, w.whole? with
    | some m, some n => m == n
    | _, _ => false

def sameKeys : List Value → List Value → Bool
  | [], [] => true
  | v :: vs, w :: ws => sameKey v w && sameKeys vs ws
  | _, _ => false

end

/-- Replace the value of a key where it stands, or add it at the end. -/
def putField (k x : Value) : List (Value × Value) → List (Value × Value)
  | [] => [(k, x)]
  | (j, y) :: rest => if sameKey j k then (j, x) :: rest else (j, y) :: putField k x rest

def findField? (k : Value) (fields : List (Value × Value)) : Option Value :=
  (fields.find? fun e => sameKey e.1 k).map Prod.snd

def named? (name : String) (fields : List (Value × Value)) : Option Value :=
  findField? (.str name) fields

def putFields (fields more : List (Value × Value)) : List (Value × Value) :=
  more.foldl (fun r e => putField e.1 e.2 r) fields

def record (fields : List (String × Value)) : Value :=
  .dict (fields.map fun e => (.str e.1, e.2))

end Value
end Patchbay
