import Patchbay.Fault
import Patchbay.Table

/-!
Catalogs of node types: what each type of node is called, which ports it has, and which generic
parameters the types of its ports may mention.
-/

namespace Patchbay

inductive Mode where
  /-- When a route arrives at its trigger. -/
  | triggered
  /-- When its value is asked for. -/
  | data
  /-- When its value is first asked for. -/
  | dataOnce
deriving DecidableEq, Repr

namespace Mode

def name : Mode → String
  | .triggered => "TRIGGERED"
  | .data => "DATA"
  | .dataOnce => "DATA_ONCE"

def ofValue (v : Value) : Except Fault Mode :=
  match v with
  | .str "TRIGGERED" => .ok .triggered
  | .str "DATA" => .ok .data
  | .str "DATA_ONCE" => .ok .dataOnce
  | _ => .error (if v.isWritable then .mode v else .integerText)

end Mode

def routeType : String := "route"

/-- Hints for the control that edits a port. -/
structure PortOptions where
  default : Value
  multiline : Bool
  choices : List String

structure Port where
  name : String
  type : String
  widget : Value
  options : Option PortOptions

def Port.isRoute (p : Port) : Bool := p.type == routeType

inductive Side where
  | output
  | input
deriving DecidableEq, Repr

structure Display where
  name : String
  type : String
deriving DecidableEq, Repr

structure NodeType where
  title : String
  category : String
  inputs : List Port
  outputs : List Port
  params : List String
  mode : Option Mode
  noTrigger : Bool
  displays : List Display

abbrev Catalog := Table NodeType

namespace NodeType

def ports (t : NodeType) : Side → List Port
  | .output => t.outputs
  | .input => t.inputs

def port? (t : NodeType) (name : String) (side : Side) : Option Port :=
  (t.ports side).find? fun p => p.name == name

/-- What an input of a plain type holds before anything is entered. -/
def plainDefault? : String → Option Value
  | "int" => some (.int 0)
  | "float" => some (.float 0.0)
  | "str" => some (.str "")
  | "bool" => some (.bool false)
  | _ => none

/-- A declared default counts unless it counts as false. -/
def portDefault? (p : Port) : Option Value :=
  match p.options with
  | some o => if o.default.truthy then some o.default else plainDefault? p.type
  | none => plainDefault? p.type

def defaultInputs (t : NodeType) : List (Value × Value) :=
  t.inputs.foldl (fun fields p =>
    match portDefault? p with
    | some v => Value.putField (.str p.name) v fields
    | none => fields) []

/-! ### From documents -/

def optionsOfFields (fields : List (Value × Value)) : Except Value.Mismatch PortOptions := do
  let choices ← ((Value.named? "choices" fields).getD .null).itemsOrNone
  return {
    default := (Value.named? "default" fields).getD .null
    multiline := ((Value.named? "multiline" fields).getD .null).truthy
    choices := choices.map Value.text }

/-- Options that are no dictionary do not count. -/
def optionsOfValue : Option Value → Except Value.Mismatch (Option PortOptions)
  | some (.dict fields) => (optionsOfFields fields).map some
  | _ => .ok none

def portOfValue (nodeType : String) (v : Value) : Except Fault Port :=
  match v with
  | .dict fields =>
    match Value.named? "name" fields, Value.named? "type" fields with
    | some name, some type => do
      let options ← (optionsOfValue (Value.named? "options" fields)).mapError .value
      return {
        name := name.text
        type := type.text
        widget := (Value.named? "widget" fields).getD .null
        options }
    | _, _ => .error (.catalog (.portIncomplete nodeType))
  | _ => .error (.catalog (.portIncomplete nodeType))

def portsOfValue (nodeType : String) : Option Value → Except Fault (List Port)
  | none => .ok []
  | some .null => .ok []
  | some (.list vs) => vs.mapM (portOfValue nodeType)
  | some (.tuple vs) => vs.mapM (portOfValue nodeType)
  | some _ => .error (.catalog (.portsNotList nodeType))

def displayOfValue (v : Value) : Except Value.Mismatch Display := do
  let name ← v.part "name"
  let type ← v.part "type"
  return { name := name.text, type := type.text }

/-- The mode is judged first, then the parts in the order of the structure's fields. -/
def ofValue (nodeType : String) (v : Value) : Except Fault NodeType :=
  match v with
  | .dict fields => do
    let given := (Value.named? "execution" fields).getD .null
    let mode ← if given.truthy then (Mode.ofValue given).map some else .ok none
    let inputs ← portsOfValue nodeType (Value.named? "inputs" fields)
    let outputs ← portsOfValue nodeType (Value.named? "outputs" fields)
    let params ← ((Value.named? "generic_types" fields).getD .null).itemsOrNone.mapError .value
    let shown ← ((Value.named? "display" fields).getD .null).itemsOrNone.mapError .value
    let displays ← (shown.mapM displayOfValue).mapError .value
    return {
      title := ((Value.named? "title" fields).getD (.str nodeType)).text
      category := ((Value.named? "category" fields).getD (.str "")).text
      inputs
      outputs
      params := params.map Value.text
      mode
      noTrigger := ((Value.named? "no_trigger" fields).getD (.bool false)).truthy
      displays }
  | _ => .error (.catalog (.declarationNotMapping nodeType))

end NodeType

namespace Catalog

/-- Node types are read in order; of two with one name the later counts. -/
def ofValue : Value → Except Fault Catalog
  | .dict fields => do
    let types ← fields.mapM fun (k, v) => do return (k.text, ← NodeType.ofValue k.text v)
    return Table.ofList types
  | _ => .error (.catalog .notMapping)

end Catalog
end Patchbay
