import Patchbay.Flow
import Patchbay.Settings

/-!
The editor: a graph that is changed one step at a time.  A step that is not allowed is a fault and
changes nothing.
-/

namespace Patchbay

structure Graph where
  nodes : Nodes
  edges : List Edge

/-- The graph together with what it is edited by.  `nextId` is the least number that may name the
next node. -/
structure Editor where
  catalog : Catalog
  settings : Settings
  graph : Graph
  nextId : Nat

structure Change (α : Type) where
  editor : Editor
  result : α
  log : List LogRecord := []

namespace Editor

def logger : String := "flowtypes.graph.editor"

def withNodes (ed : Editor) (nodes : Nodes) : Editor :=
  { ed with graph := { ed.graph with nodes } }

def withNode (ed : Editor) (n : Node) : Editor := ed.withNodes (ed.graph.nodes.insert n.id n)

def withEdges (ed : Editor) (edges : List Edge) : Editor :=
  { ed with graph := { ed.graph with edges } }

/-! ### Whole graphs -/

/-- One more than the greatest number among the ids. -/
def nextIdOf (ids : List String) : Nat :=
  ids.foldl (fun highest id =>
    match Value.integerOfText id with
    | .ok n => max highest n.toNat
    | .error _ => highest) 0 + 1

def startNode (id : String) : Node :=
  { id, nodeType := "StartNode", mode := .triggered, position := ⟨20.0, 20.0⟩ }

/-- Only the start node, and ids from one on. -/
def reset (ed : Editor) : Editor :=
  let start := startNode ed.settings.startId
  { ed with
    graph := { nodes := Nodes.ofList [start], edges := [] }
    nextId := 1 }

/-- Another graph, and ids behind its own. -/
def load (ed : Editor) (nodes : List Node) (edges : List Edge) : Editor :=
  let nodes := Nodes.ofList nodes
  { ed with
    graph := { nodes, edges }
    nextId := nextIdOf (nodes.values.map Node.id) }

/-- An earlier graph; ids go on from where they are. -/
def restore (ed : Editor) (g : Graph) : Editor := { ed with graph := g }

def start (catalog : Catalog) (settings : Settings) : Editor :=
  reset { catalog, settings, graph := { nodes := ∅, edges := [] }, nextId := 1 }

/-! ### Nodes -/

def node (ed : Editor) (id : String) : Except Fault Node :=
  match ed.graph.nodes.get? id with
  | some n => .ok n
  | none => .error (.edit (.unknownNode id))

/-- The first number from `n` on that is no id.  Among one more number than there are ids one is
free, so their count is fuel enough. -/
def freeFrom (nodes : Nodes) : Nat → Nat → Nat
  | 0, n => n
  | fuel + 1, n => if nodes.contains (toString n) then freeFrom nodes fuel (n + 1) else n

def freeId (ed : Editor) : Nat := freeFrom ed.graph.nodes ed.graph.nodes.entries.length ed.nextId

def place (ed : Editor) (make : String → Node) : Except Fault (Change Node) :=
  let n := ed.freeId
  if n < Nat.pow 10 Number.maxIntegerDigits then
    let placed := make (toString n)
    .ok { editor := { ed.withNode placed with nextId := n + 1 }, result := placed }
  else .error .integerText

def addNode (ed : Editor) (nodeType : String) (position : Position) :
    Except Fault (Change Node) :=
  match ed.catalog.get? nodeType with
  | none => .error (.edit (.unknownNodeType nodeType))
  | some t => ed.place fun id =>
    { id, nodeType, mode := t.mode.getD .triggered, inputs := t.defaultInputs, position }

def copyOffset : Float := 100.0

/-- A copy without bindings and wires. -/
def duplicateNode (ed : Editor) (id : String) : Except Fault (Change Node) := do
  let n ← ed.node id
  if id = ed.settings.startId then throw (.edit .startDuplicated)
  else ed.place fun id =>
    { n with id, bindings := ∅, position := n.position.shifted copyOffset copyOffset }

def deleteNode (ed : Editor) (id : String) : Except Fault (Change Unit) := do
  if id = ed.settings.startId then throw (.edit .startDeleted)
  else
    let _ ← ed.node id
    let kept := ed.graph.edges.filter fun e => !e.meets id
    return { editor := (ed.withNodes (ed.graph.nodes.erase id)).withEdges kept, result := () }

/-- Replace a node that was looked up under `id`. -/
def putNode (ed : Editor) (id : String) (n : Node) : Editor :=
  ed.withNodes (ed.graph.nodes.insert id n)

def setInputs (ed : Editor) (id : String) (values : Value) : Except Fault (Change Node) := do
  let n ← ed.node id
  let more ← values.toFields.mapError .value
  let n := { n with inputs := Value.putFields n.inputs more }
  return { editor := ed.putNode id n, result := n }

def droppedRecord (id : String) (count : Nat) : List LogRecord :=
  if count = 0 then []
  else [{
    level := .info
    logger := logger
    message := "dropped " ++ toString count ++ " trigger edge(s) of node " ++ id }]

/-- A node that is no longer triggered loses the wires at its trigger. -/
def setMode (ed : Editor) (id : String) (mode : Mode) : Except Fault (Change Node) := do
  let n ← ed.node id
  if id = ed.settings.startId ∧ mode ≠ .triggered then throw (.edit .startMode)
  else
    let updated := { n with mode }
    if n.mode = .triggered ∧ mode ≠ .triggered then
      let kept := ed.graph.edges.filter fun e => !e.touches id (some triggerHandle)
      return {
        editor := (ed.withEdges kept).putNode id updated
        result := updated
        log := droppedRecord id (ed.graph.edges.length - kept.length) }
    else return { editor := ed.putNode id updated, result := updated }

/-- A node without bindings.  Its data wires were judged by them, so they go too. -/
def resetBindings (ed : Editor) (id : String) : Except Fault (Change Node) := do
  let n ← ed.node id
  let updated := { n with bindings := ∅ }
  let kept := ed.graph.edges.filter fun e => e.isRoute || !e.meets id
  return { editor := (ed.withEdges kept).putNode id updated, result := updated }

/-- The handles of a node; a node of an unknown type has none. -/
def handles (ed : Editor) (id : String) (side : Side) : Except Fault (List HandleView) := do
  let n ← ed.node id
  match ed.catalog.get? n.nodeType with
  | none => return []
  | some t => HandleView.list ed.settings.theme t n side

/-! ### Wires -/

def addedRecord (edge : Edge) (rebinding : Option Rebinding) (evicted : List String) : LogRecord :=
  { level := .info
    logger := logger
    message := "edge " ++ edge.id ++ " added | evicted=" ++ toString evicted.eraseDups.length ++
      " rebound=" ++ rebinding.elim "-" fun r => if r.node = "" then "-" else r.node }

/-- Install a decision: its bindings, then the new edge in place of those that it replaces and of
one with its id.  A rejected wire changes nothing; the node with new bindings has to be there. -/
def apply (ed : Editor) : Decision → Except Fault (Change Unit)
  | .rejected _ => .ok { editor := ed, result := () }
  | .accepted edge rebinding evicted => do
    let nodes ← match rebinding with
      | none => .ok ed.graph.nodes
      | some r =>
        match Decision.rebind ed.graph.nodes r with
        | some nodes => .ok nodes
        | none => .error (.value (.missing r.node))
    let kept := ed.graph.edges.filter fun e => !evicted.contains e.id && e.id != edge.id
    return {
      editor := (ed.withNodes nodes).withEdges (kept ++ [edge])
      result := ()
      log := [addedRecord edge rebinding evicted] }

def validate (ed : Editor) (theme : Theme) (wire : Wire) : Metered Decision :=
  Decision.validate theme ed.catalog ed.graph.nodes ed.graph.edges wire

def decide (ed : Editor) (theme : Theme) (wire : Wire) : Except Fault Decision :=
  Decision.make theme ed.catalog ed.graph.nodes ed.graph.edges wire

def attach (ed : Editor) (wire : Wire) : Metered (Change Decision) := do
  let d ← ed.validate ed.settings.theme wire
  let c ← ed.apply d
  return { editor := c.editor, result := d, log := c.log }

/-- The change that a wire brings, without its samples. -/
def connect (ed : Editor) (wire : Wire) : Except Fault (Change Decision) := (ed.attach wire).result

def removeEdges (ed : Editor) (ids : List String) : Editor :=
  ed.withEdges (ed.graph.edges.filter fun e => !ids.contains e.id)

/-! ### Documents -/

def importDocument (ed : Editor) (document : Value) : Except Fault Editor := do
  let (nodes, edges) ← Flow.ofDocument ed.catalog (.ofColors ed.settings.palette) document
  return ed.load nodes edges

def exportText (ed : Editor) : String := Flow.toText ed.graph.nodes.values ed.graph.edges

def reload (ed : Editor) : Except Fault (Change String) := do
  let text := ed.exportText
  let (nodes, edges) ← Flow.ofText ed.catalog (.ofColors ed.settings.palette) text
  return { editor := ed.load nodes edges, result := text }

def request (ed : Editor) : Value := Flow.toRequest ed.graph.nodes.values ed.graph.edges

def audit (ed : Editor) : Audit := Audit.ofGraph ed.catalog ed.graph.nodes ed.graph.edges

end Editor
end Patchbay
