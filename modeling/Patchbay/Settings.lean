import Patchbay.Color
import Patchbay.Document
import Patchbay.Graph.Handle

/-!
Settings of the editor.  Whatever a document holds is brought into shape once; overrides are laid
over the document form of settings that are in shape.
-/

namespace Patchbay

/-- `colors` are laid over the standard colors. -/
structure Settings where
  colors : Table Rgb
  unresolved : Rgb
  startId : String
  catalogPath : Option Path

namespace Settings

def standard : Settings :=
  { colors := ∅, unresolved := .unresolved, startId := "start", catalogPath := none }

/-- The colors of types, those of the settings last. -/
def palette (s : Settings) : Table Rgb := Palette.standardColors.union s.colors

def theme (s : Settings) : Theme := ⟨.ofColors s.palette, s.unresolved⟩

/-! ### From documents -/

/-- Parts that are no numbers are replaced; only infinite ones are a fault. -/
def partsOr (fallback : Rgb) (r g b : Value) : Except Fault Rgb :=
  match Rgb.ofParts r g b with
  | .ok c => .ok c
  | .error m => if Fault.mismatchKind m = .overflow then .error (.value m) else .ok fallback

/-- A list of three numbers is a color; all else is replaced. -/
def colorOr (fallback : Rgb) : Value → Except Fault Rgb
  | .list [r, g, b] => partsOr fallback r g b
  | .tuple [r, g, b] => partsOr fallback r g b
  | _ => .ok fallback

/-- A color that cannot be read is the standard color of its name. -/
def colorFallback (name : String) : Rgb := (Palette.standardColors.get? name).getD .unresolved

def colorsOfFields (fields : List (Value × Value)) : Except Fault (Table Rgb) := do
  let colors ← fields.mapM fun (k, v) => do return (k.text, ← colorOr (colorFallback k.text) v)
  return Table.ofList colors

def colorsOfValue : Option Value → Except Fault (Table Rgb)
  | some (.dict fields) => colorsOfFields fields
  | _ => .ok ∅

def pathOfValue : Option Value → Except Fault (Option Path)
  | none => .ok none
  | some .null => .ok none
  | some v => (Path.ofValue v).map some

/-- The name of the start node; what counts as false is no name. -/
def startOfValue : Option Value → String
  | some v => if v.truthy then v.text else "start"
  | none => "start"

def ofFields (fields : List (Value × Value)) : Except Fault Settings := do
  let colors ← colorsOfValue (Value.named? "colors" fields)
  let unresolved ← colorOr .unresolved ((Value.named? "unresolved_color" fields).getD .null)
  let startId := startOfValue (Value.named? "start_node_id" fields)
  let catalogPath ← pathOfValue (Value.named? "node_metas_path" fields)
  return { colors, unresolved, startId, catalogPath }

/-- A value that counts as false holds no settings. -/
def ofValue (v : Value) : Except Fault Settings := do
  let fields ← if v.truthy then v.toFields.mapError .value else .ok []
  ofFields fields

/-! ### To documents -/

def toFields (s : Settings) : List (Value × Value) :=
  [(.str "colors", .record (s.colors.entries.map fun (n, c) => (n, c.toValue))),
    (.str "unresolved_color", s.unresolved.toValue),
    (.str "start_node_id", .str s.startId),
    (.str "node_metas_path", s.catalogPath.elim .null fun p => .str p.text)]

def toValue (s : Settings) : Value := .dict s.toFields

/-! ### Overrides -/

mutual

/-- Lay fields over others; dictionaries are laid over dictionaries. -/
def overlay (base : List (Value × Value)) : List (Value × Value) → List (Value × Value)
  | [] => base
  | (k, v) :: rest => overlay (Value.putField k (overlaid (Value.findField? k base) v) base) rest

def overlaid (old : Option Value) : Value → Value
  | .dict fields =>
    match old with
    | some (.dict base) => .dict (overlay base fields)
    | _ => .dict fields
  | v => v

end

/-- Settings with overrides laid over them.  Overrides that count as false change nothing. -/
def merge (s : Settings) (overrides : Value) : Except Fault Settings :=
  if overrides.truthy then
    match overrides with
    | .dict fields => ofFields (overlay s.toFields fields)
    | v => .error (.value (.noMember v.kind "items"))
  else .ok s

/-! ### From files -/

/-- The settings that hold where no file is named. -/
def bundled : List (Value × Value) :=
  [(.str "start_node_id", .str "start"), (.str "unresolved_color", Rgb.unresolved.toValue),
    (.str "colors", .dict []), (.str "node_metas_path", .null)]

def layered (fields : List (Value × Value)) (overrides : Value) : Except Fault Settings := do
  let s ← ofFields fields
  s.merge overrides

/-- The settings of a file, or the bundled ones, with overrides laid over them. -/
def load {m : Type → Type} [Monad m] (files : FileSource m) (path : Option Path)
    (overrides : Value) : m (Except Fault Settings) :=
  match path with
  | none => pure (layered bundled overrides)
  | some p => do
    let entry ← files.entry p
    return (Document.load p entry).bind fun fields => layered fields overrides

end Settings
end Patchbay
