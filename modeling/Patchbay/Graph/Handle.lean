import Patchbay.Color
import Patchbay.Graph.Basic

/-!
Handles: the points of a node at which wires end.  A handle is a declared port or the trigger.
`inspect` finds one by its name; `views` lists those that a node shows.
-/

namespace Patchbay

inductive HandleKind where
  | control
  | data
deriving DecidableEq, Repr

def HandleKind.name : HandleKind → String
  | .control => "control"
  | .data => "data"

/-- What a wire meets at a handle.  Data handles have a type, in which the bound parameters of the
node are replaced, and `free` names the parameters of the node type that are not bound. -/
inductive Handle where
  | control
  | data (type : TypeTree) (free : List String)
deriving DecidableEq, Repr

namespace Handle

def kind : Handle → HandleKind
  | .control => .control
  | .data _ _ => .data

def freeParams (t : NodeType) (n : Node) : List String :=
  t.params.filter fun p => !n.bindings.contains p

def effectiveType (expression : String) (n : Node) : Except TypeTree.SyntaxFault TypeTree :=
  (TypeTree.parse expression).map (TypeTree.substitute n.bindings)

def ofPort (t : NodeType) (n : Node) (p : Port) : Except TypeTree.SyntaxFault Handle :=
  if p.isRoute then .ok .control
  else (effectiveType p.type n).map fun type => .data type (freeParams t n)

def ofNode (t : NodeType) (n : Node) (name : String) (side : Side) :
    Except TypeTree.SyntaxFault (Option Handle) :=
  if name = triggerHandle then .ok (some .control)
  else
    match t.port? name side with
    | none => .ok none
    | some p => (ofPort t n p).map some

/-- The handle `handle` of the node `id`, if there is one.  Only the type of the port that is found
has to be well formed. -/
def inspect (nodes : Nodes) (catalog : Catalog) (id : String) (handle : Option String)
    (side : Side) : Except TypeTree.SyntaxFault (Option Handle) :=
  match handle with
  | none => .ok none
  | some "" => .ok none
  | some name =>
    match nodes.get? id with
    | none => .ok none
    | some n =>
      match catalog.get? n.nodeType with
      | none => .ok none
      | some t => ofNode t n name side

end Handle

/-! ### Views -/

structure Theme where
  palette : Palette
  unresolved : Rgb

def Theme.standard : Theme := ⟨.standard, .unresolved⟩

structure DataView where
  type : TypeTree
  unresolved : Bool
  color : Rgb
deriving DecidableEq, Repr

/-- What is drawn for a handle; control handles have no `data`. -/
structure HandleView where
  id : String
  name : String
  data : Option DataView
deriving DecidableEq, Repr

namespace HandleView

def kind (v : HandleView) : HandleKind := if v.data.isSome then .data else .control

/-- An empty port type stands for any type. -/
def expression (p : Port) : String := if p.type = "" then TypeTree.wildcard else p.type

/-- The color is that of the type, unless the type mentions a parameter of the node type. -/
def ofDataPort (theme : Theme) (t : NodeType) (n : Node) (p : Port) : Except Fault HandleView := do
  let type ← (Handle.effectiveType (expression p) n).mapError .expression
  let unresolved := type.mentions t.params
  let color ← if unresolved then .ok theme.unresolved
    else (Color.ofSpelling theme.palette type.format).mapError .value
  return { id := p.name, name := p.name, data := some { type, unresolved, color } }

def ofPort (theme : Theme) (t : NodeType) (n : Node) (side : Side) (p : Port) :
    Except Fault HandleView :=
  if side = .output ∧ p.isRoute then .ok { id := p.name, name := p.name, data := none }
  else ofDataPort theme t n p

def trigger : HandleView := { id := triggerHandle, name := "", data := none }

def showsTrigger (t : NodeType) (n : Node) (side : Side) : Bool :=
  n.mode == .triggered && (side == .output || !t.noTrigger)

/-- The handles that a node shows on a side, the trigger first. -/
def list (theme : Theme) (t : NodeType) (n : Node) (side : Side) :
    Except Fault (List HandleView) := do
  let views ← (t.ports side).mapM (ofPort theme t n side)
  return if showsTrigger t n side then trigger :: views else views

end HandleView
end Patchbay
