import Patchbay.Document
import Patchbay.Graph.Connection
import Patchbay.Json.Printer
import Patchbay.Log

/-!
Flow documents: a graph written down and read back.  Data wires and routes stand in two lists; a
route has no handle at its target, because it always ends at the trigger.
-/

namespace Patchbay
namespace Flow

/-! ### Writing -/

/-- A missing handle is written as the trigger. -/
def pin (h : Option String) : String :=
  match h with
  | none => triggerHandle
  | some "" => triggerHandle
  | some s => s

def dataEdge (e : Edge) : Value :=
  .record [("source_id", .str e.wire.source), ("source_pin", .str (pin e.wire.sourceHandle)),
    ("target_id", .str e.wire.target), ("target_pin", .str (pin e.wire.targetHandle))]

def routeEdge (e : Edge) : Value :=
  .record [("source_id", .str e.wire.source), ("source_pin", .str (pin e.wire.sourceHandle)),
    ("target_id", .str e.wire.target)]

def edgeLists (isRoute : Edge → Bool) (edges : List Edge) : List (String × Value) :=
  [("edges", .list ((edges.filter fun e => !isRoute e).map dataEdge)),
    ("route_edges", .list ((edges.filter isRoute).map routeEdge))]

def positionValue (p : Position) : Value := .record [("x", .float p.x), ("y", .float p.y)]

def bindingsValue (b : Bindings) : Value :=
  .record (b.entries.map fun (name, t) => (name, t.toValue))

/-- A size that is not set is left out. -/
def sizeField (name : String) : Value → List (String × Value)
  | .null => []
  | v => [(name, v)]

def nodeFields (n : Node) : List (String × Value) :=
  [("id", .str n.id), ("node_type", .str n.nodeType), ("execution_type", .str n.mode.name),
    ("inputs", .dict n.inputs), ("position", positionValue n.position),
    ("generic_types", bindingsValue n.bindings)] ++
    sizeField "width" n.width ++ sizeField "height" n.height

def nodeValue (n : Node) : Value := .record (nodeFields n)

def toDocument (nodes : List Node) (edges : List Edge) : Value :=
  .record (("nodes", .list (nodes.map nodeValue)) :: edgeLists Edge.isRoute edges)

def toText (nodes : List Node) (edges : List Edge) : String := Json.write (toDocument nodes edges)

/-- The graph as it is sent off to run: without places and bindings, and with the animated edges for
routes. -/
def toRequest (nodes : List Node) (edges : List Edge) : Value :=
  .record (("nodes", .list (nodes.map fun n =>
    .record [("id", .str n.id), ("node_type", .str n.nodeType),
      ("execution_type", .str n.mode.name), ("inputs", .dict n.inputs)])) ::
    edgeLists Edge.animated edges)

/-! ### Reading -/

/-- Fields under a name; what counts as false is an empty dictionary. -/
def orEmpty (v : Option Value) : Value :=
  match v with
  | some v => if v.truthy then v else .dict []
  | none => .dict []

def coordinate (name : String) (position : Value) : Except Value.Mismatch Float := do
  let v ← position.lookup? name
  (v.getD (.float 0.0)).toReal

/-- The text of a value, unless a whole number in it is too long to be written out. -/
def textOf (v : Value) : Except Fault String :=
  if v.isWritable then .ok v.text else .error .integerText

def textPart (v : Value) (name : String) : Except Fault String := do
  let part ← (v.part name).mapError .value
  textOf part

def bindingOf (k v : Value) : Except Fault (String × TypeTree) := do
  let name ← textOf k
  let type ← (TypeTree.ofValue v).mapError .shape
  return (name, type)

def bindingsOf (fields : List (Value × Value)) : Except Fault Bindings := do
  let bindings ← fields.mapM fun e => bindingOf e.1 e.2
  return Table.ofList bindings

def bindingsFault (id : Value) : Fault :=
  if id.isWritable then .flow (.bindingsNotObject id) else .integerText

/-- The node of a value, wherever it stands. -/
def unplacedOf (v : Value) : Except Fault Node := do
  match orEmpty (← (v.lookup? "generic_types").mapError .value) with
  | .dict bindings =>
    let id ← textPart v "id"
    let nodeType ← textPart v "node_type"
    let mode ← Mode.ofValue ((← (v.lookup? "execution_type").mapError .value).getD
      (.str Mode.triggered.name))
    let inputs ← (orEmpty (← (v.lookup? "inputs").mapError .value)).toFields.mapError .value
    let bindings ← bindingsOf bindings
    return {
      id
      nodeType
      mode
      inputs
      bindings
      width := (← (v.lookup? "width").mapError .value).getD .null
      height := (← (v.lookup? "height").mapError .value).getD .null }
  | _ => throw (bindingsFault ((← (v.lookup? "id").mapError .value).getD .null))

/-- The place of a node is read last. -/
def nodeOf (v : Value) : Except Fault Node := do
  let position := orEmpty (← (v.lookup? "position").mapError .value)
  let n ← unplacedOf v
  let x ← (coordinate "x" position).mapError .value
  let y ← (coordinate "y" position).mapError .value
  return { n with position := ⟨x, y⟩ }

/-- The list under a name of the document, empty if the name is absent. -/
def listOf (fields : List (Value × Value)) (name : String) : Except Fault (List Value) :=
  match Value.named? name fields with
  | none => .ok []
  | some (.list vs) => .ok vs
  | some _ => .error (.flow (.notList name))

/-- The stroke of a wire that was read: that of the type of its source, even if the source still
has free parameters. -/
def strokeOf (palette : Palette) : Option Handle → Except Fault (Option String)
  | some (.data type _) =>
    (Decision.stroke ⟨palette, .unresolved⟩ (.data type [])).mapError .value
  | _ => .ok none

def dataEdgeOf (catalog : Catalog) (palette : Palette) (nodes : Nodes) (index : Nat) (v : Value) :
    Except Fault Edge := do
  let source ← textPart v "source_id"
  let sourcePin ← textPart v "source_pin"
  let handle ← (Handle.inspect nodes catalog source (some sourcePin) .output).mapError .expression
  let stroke ← strokeOf palette handle
  let target ← textPart v "target_id"
  let targetPin ← textPart v "target_pin"
  return {
    id := "data-" ++ toString index
    wire := { source, sourceHandle := some sourcePin, target, targetHandle := some targetPin }
    animated := false
    stroke }

def routeEdgeOf (index : Nat) (v : Value) : Except Fault Edge := do
  let source ← textPart v "source_id"
  let sourcePin ← textPart v "source_pin"
  let target ← textPart v "target_id"
  return {
    id := "route-" ++ toString index
    wire := { source, sourceHandle := some sourcePin, target, targetHandle := some triggerHandle }
    animated := true
    stroke := none }

def numbered (vs : List Value) : List (Nat × Value) := vs.zipIdx.map fun (v, i) => (i, v)

/-- Nodes, then data wires, then routes. -/
def graphOfFields (catalog : Catalog) (palette : Palette) (fields : List (Value × Value)) :
    Except Fault (List Node × List Edge) := do
  let nodes ← (← listOf fields "nodes").mapM nodeOf
  let known := Nodes.ofList nodes
  let wires ← (numbered (← listOf fields "edges")).mapM fun (i, v) =>
    dataEdgeOf catalog palette known i v
  let routes ← (numbered (← listOf fields "route_edges")).mapM fun (i, v) => routeEdgeOf i v
  return (nodes, wires ++ routes)

/-- The families of faults that are faults of the document when a part of it has them. -/
def isAbsorbed : Fault.Kind → Bool
  | .noMember | .missingKey | .mistyped | .invalid | .edit | .undecodable | .expression => true
  | _ => false

def asFlowFault (f : Fault) : Fault := if isAbsorbed f.kind then .flowPart f else f

def ofDocument (catalog : Catalog) (palette : Palette) :
    Value → Except Fault (List Node × List Edge)
  | .dict fields => (graphOfFields catalog palette fields).mapError asFlowFault
  | _ => .error (.flow .notObject)

def ofText (catalog : Catalog) (palette : Palette) (text : String) :
    Except Fault (List Node × List Edge) :=
  match Json.parse text with
  | .ok v => ofDocument catalog palette v
  | .error (.longInteger n) => .error (.value (.longInteger n))
  | .error f => .error (.flow (.notJson f))

/-! ### Files -/

def importRecord (path : Path) (nodes : List Node) (edges : List Edge) : LogRecord :=
  { level := .info
    logger := "flowtypes.graph.flow_format"
    message := "imported " ++ path.name ++ " | nodes=" ++ toString nodes.length ++ " edges=" ++
      toString edges.length }

/-- The graph that a file holds.  Only the name decides whether it may be one. -/
def ofEntry (catalog : Catalog) (palette : Palette) (path : Path) (entry : FileEntry) :
    Except Fault (List Node × List Edge) := do
  if path.isJson then
    let text ← (Document.text path entry).mapError .file
    ofText catalog palette text
  else throw (.flow .notJsonFile)

end Flow
end Patchbay
