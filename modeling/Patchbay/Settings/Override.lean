import Patchbay.Fault
import Patchbay.Path
import Patchbay.Value.Basic

/-!
Overrides of settings, written as `key=value`.  Dots in a key lead into nested dictionaries; what
the text of a value means is up to those who read overrides.
-/

namespace Patchbay
namespace Override

/-- Cut at the first equals sign, if there is one. -/
def split? : List Char → Option (List Char × List Char)
  | [] => none
  | c :: rest => if c = '=' then some ([], rest) else (split? rest).map fun (k, v) => (c :: k, v)

/-- The names in a key; empty ones do not count. -/
def names (key : List Char) : List String :=
  ((Path.cut '.' key).filter (!·.isEmpty)).map String.ofList

/-- Put a value under nested names.  Only dictionaries can be entered; that is known before the
value is. -/
def assign (key : String) (value : Except Fault Value) :
    List String → List (Value × Value) → Except Fault (List (Value × Value))
  | [], _ => .error (.override .noKey)
  | [name], fields => value.map fun v => Value.putField (.str name) v fields
  | name :: rest, fields =>
    match Value.named? name fields with
    | none => do return Value.putField (.str name) (.dict (← assign key value rest [])) fields
    | some (.dict inner) => do
      return Value.putField (.str name) (.dict (← assign key value rest inner)) fields
    | some _ => .error (.override (.conflict key))

variable (coerce : String → Except Fault Value)

def add (fields : List (Value × Value)) (item : String) : Except Fault (List (Value × Value)) :=
  match split? item.toList with
  | none => .error (.override (.noEquals item))
  | some (key, value) =>
    assign (String.ofList key) (coerce (String.ofList value)) (names key) fields

/-- The overrides of a list of items, later ones over earlier ones. -/
def ofItems (items : List String) : Except Fault (List (Value × Value)) :=
  items.foldlM (add coerce) []

end Override
end Patchbay
