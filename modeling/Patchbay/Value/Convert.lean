import Patchbay.Number.Reader
import Patchbay.Value.Printer

/-!
Values read as numbers, sequences and dictionaries, with the reason where one cannot be read so.
-/

namespace Patchbay
namespace Value

inductive Mismatch where
  /-- Items were asked of a value that has none. -/
  | notIterable (kind : Kind)
  /-- A named part was asked of a value that has no parts. -/
  | notSubscriptable (kind : Kind)
  /-- A named part was asked of a list. -/
  | listIndex (kind : Kind)
  /-- A named part was asked of a text. -/
  | textIndex
  /-- A look-up was asked of a value that is no dictionary. -/
  | noMember (kind : Kind) (name : String)
  /-- A dictionary lacks a name. -/
  | missing (name : String)
  /-- An item of a list of pairs is no sequence. -/
  | notPair (position : Nat)
  /-- An item of a list of pairs has the wrong length. -/
  | pairLength (position length : Nat)
  /-- A key that cannot be one. -/
  | unhashable (kind : Kind)
  | notReal (kind : Kind)
  | notInteger (kind : Kind)
  | badReal (text : String)
  | badInteger (text : String)
  | longInteger (digits : Nat)
  | undefinedInteger
  | infiniteInteger
  | tooLarge
  /-- Three parts were asked of a value that has none. -/
  | noParts (kind : Kind)
  /-- Fewer than three parts. -/
  | tooFew (parts : Nat)
  /-- More than three parts. -/
  | tooMany
deriving DecidableEq, Repr

def quotationLimit : Nat := 200

def Mismatch.message : Mismatch → String
  | .notIterable k => "'" ++ k.name ++ "' object is not iterable"
  | .notSubscriptable k => "'" ++ k.name ++ "' object is not subscriptable"
  | .listIndex k => k.name ++ " indices must be integers or slices, not str"
  | .textIndex => "string indices must be integers, not 'str'"
  | .noMember k name => "'" ++ k.name ++ "' object has no attribute '" ++ name ++ "'"
  | .missing name => Text.quote name
  | .notPair i =>
    "cannot convert dictionary update sequence element #" ++ toString i ++ " to a sequence"
  | .pairLength i n =>
    "dictionary update sequence element #" ++ toString i ++ " has length " ++ toString n ++
      "; 2 is required"
  | .unhashable k => "unhashable type: '" ++ k.name ++ "'"
  | .notReal k => "float() argument must be a string or a real number, not '" ++ k.name ++ "'"
  | .notInteger k =>
    "int() argument must be a string, a bytes-like object or a real number, not '" ++ k.name ++ "'"
  | .badReal s => "could not convert string to float: " ++ Text.quote s
  | .badInteger s =>
    "invalid literal for int() with base 10: " ++
      String.ofList ((Text.quote s).toList.take quotationLimit)
  | .longInteger n =>
    "Exceeds the limit (" ++ toString Number.maxIntegerDigits ++
      " digits) for integer string conversion: value has " ++ toString n ++
      " digits; use sys.set_int_max_str_digits() to increase the limit"
  | .undefinedInteger => "cannot convert float NaN to integer"
  | .infiniteInteger => "cannot convert float infinity to integer"
  | .tooLarge => "int too large to convert to float"
  | .noParts k => "cannot unpack non-iterable " ++ k.name ++ " object"
  | .tooFew n => "not enough values to unpack (expected 3, got " ++ toString n ++ ")"
  | .tooMany => "too many values to unpack (expected 3)"

/-! ### Numbers -/

def integerOfText (s : String) : Except Mismatch Int :=
  match Number.readInteger s.toList with
  | .ok n => .ok n
  | .error .malformed => .error (.badInteger s)
  | .error (.tooLong n) => .error (.longInteger n)

/-- Doubles lose what stands after the point. -/
def toInteger : Value → Except Mismatch Int
  | .bool b => .ok (if b then 1 else 0)
  | .int n => .ok n
  | .float x =>
    match Number.Reading.ofFloat x with
    | .finite d => .ok d.truncate
    | .infinite _ => .error .infiniteInteger
    | .undefined => .error .undefinedInteger
  | .str s => integerOfText s
  | v => .error (.notInteger v.kind)

def realOfInteger (n : Int) : Except Mismatch Float :=
  match Number.ofInt? n with
  | some x => .ok x
  | none => .error .tooLarge

def toReal : Value → Except Mismatch Float
  | .bool b => .ok (if b then 1.0 else 0.0)
  | .int n => realOfInteger n
  | .float x => .ok x
  | .str s =>
    match Number.readFloat? s.toList with
    | some x => .ok x
    | none => .error (.badReal s)
  | v => .error (.notReal v.kind)

/-! ### Parts -/

/-- The items of a value: characters of a text, keys of a dictionary. -/
def items : Value → Except Mismatch (List Value)
  | .str s => .ok (s.toList.map fun c => .str (String.singleton c))
  | .list xs => .ok xs
  | .tuple xs => .ok xs
  | .dict fs => .ok (fs.map Prod.fst)
  | v => .error (.notIterable v.kind)

/-- The items of a value, none if it counts as false. -/
def itemsOrNone (v : Value) : Except Mismatch (List Value) :=
  if v.truthy then v.items else .ok []

/-- Look-up of a name in a dictionary; absent names give nothing. -/
def lookup? (name : String) : Value → Except Mismatch (Option Value)
  | .dict fs => .ok (named? name fs)
  | v => .error (.noMember v.kind "get")

def part (name : String) : Value → Except Mismatch Value
  | .dict fs =>
    match named? name fs with
    | some v => .ok v
    | none => .error (.missing name)
  | .list _ => .error (.listIndex .list)
  | .tuple _ => .error (.listIndex .tuple)
  | .str _ => .error .textIndex
  | v => .error (.notSubscriptable v.kind)

def threeParts (v : Value) : Except Mismatch (Value × Value × Value) :=
  match v.items with
  | .error _ => .error (.noParts v.kind)
  | .ok [a, b, c] => .ok (a, b, c)
  | .ok parts => .error (if parts.length < 3 then .tooFew parts.length else .tooMany)

/-! ### Dictionaries -/

mutual

/-- The first part of a value, in the order of its parts, that keeps it from being a key. -/
def unhashable? : Value → Option Kind
  | .list _ => some .list
  | .dict _ => some .dict
  | .tuple xs => unhashableItem? xs
  | _ => none

def unhashableItem? : List Value → Option Kind
  | [] => none
  | v :: vs =>
    match unhashable? v with
    | some k => some k
    | none => unhashableItem? vs

end

/-- Enter a field, provided that its key can be one. -/
def putChecked (k x : Value) (fields : List (Value × Value)) :
    Except Mismatch (List (Value × Value)) :=
  match unhashable? k with
  | some kind => .error (.unhashable kind)
  | none => .ok (putField k x fields)

/-- Fields from a list of pairs; `position` counts the items that were read before. -/
def fieldsOfPairs (position : Nat) (fields : List (Value × Value)) :
    List Value → Except Mismatch (List (Value × Value))
  | [] => .ok fields
  | v :: rest =>
    match v.items with
    | .error _ => .error (.notPair position)
    | .ok [k, x] =>
      match putChecked k x fields with
      | .error e => .error e
      | .ok fields => fieldsOfPairs (position + 1) fields rest
    | .ok parts => .error (.pairLength position parts.length)

/-- The fields of a dictionary, or those that a sequence of pairs spells. -/
def toFields : Value → Except Mismatch (List (Value × Value))
  | .dict fs => .ok fs
  | v =>
    match v.items with
    | .error e => .error e
    | .ok xs => fieldsOfPairs 0 [] xs

/-! ### Text -/

mutual

/-- Whether no whole number in a value has more digits than are written out. -/
def isWritable : Value → Bool
  | .int n => n.natAbs < Nat.pow 10 Number.maxIntegerDigits
  | .list xs => areWritable xs
  | .tuple xs => areWritable xs
  | .dict fs => areWritableFields fs
  | _ => true

def areWritable : List Value → Bool
  | [] => true
  | v :: vs => isWritable v && areWritable vs

def areWritableFields : List (Value × Value) → Bool
  | [] => true
  | (k, v) :: rest => isWritable k && isWritable v && areWritableFields rest

end

end Value
end Patchbay
