import Patchbay.Graph.Handle
import Patchbay.Metrics

/-!
Decisions on new wires.  A wire is accepted or rejected against the present graph; an accepted wire
brings the edges that it replaces and the bindings that it settles.  What is decided is recorded on
the way.  `audit` replays the edges of a graph as if each were new.
-/

namespace Patchbay

inductive Reason where
  | unknownHandle
  | kindMismatch
  /-- Both nodes have free parameters. -/
  | bothUnresolved
  /-- Neither node has free parameters, and the types differ. -/
  | typeMismatch
  /-- The type with free parameters cannot become the other. -/
  | resolutionFailed (obstacle : TypeTree.Obstacle)
deriving DecidableEq, Repr

def Reason.name : Reason → String
  | .unknownHandle => "unknown_handle"
  | .kindMismatch => "kind_mismatch"
  | .bothUnresolved => "both_unresolved"
  | .typeMismatch => "type_mismatch"
  | .resolutionFailed _ => "resolution_failed"

/-- New bindings of a node, complete with those that it had. -/
structure Rebinding where
  node : String
  bindings : Bindings

inductive Decision where
  | rejected (reason : Reason)
  /-- `evicted` lists the ids of the edges that the new one replaces. -/
  | accepted (edge : Edge) (rebinding : Option Rebinding) (evicted : List String)

/-- The reason of a rejection, or the word for the absence of one. -/
def Decision.outcome : Decision → String
  | .rejected reason => reason.name
  | .accepted .. => "accepted"

namespace Wire

/-- A missing handle is written out. -/
def handleText (h : Option String) : String := h.getD "None"

def edgeId (w : Wire) : String :=
  "edge-" ++ w.source ++ ":" ++ handleText w.sourceHandle ++ "->" ++ w.target ++ ":" ++
    handleText w.targetHandle

end Wire

/-! ### Samples -/

namespace Sample

def accepted (kind : HandleKind) : Sample :=
  .make Metrics.accepted 1.0 (.ofList [("kind", kind.name)])

def rejected (reason : Reason) : Sample :=
  .make Metrics.rejected 1.0 (.ofList [("reason", reason.name)])

def unresolvable (obstacle : TypeTree.Obstacle) : Sample :=
  .make Metrics.unresolvable 1.0 (.ofList [("kind", obstacle.kindName)])

def evicted (ids : List String) : Sample := .make Metrics.evicted (Float.ofNat ids.length) ∅

end Sample

/-! ### Decisions -/

namespace Decision

/-- The bindings of a node extended by what was resolved; what was bound stays. -/
def rebindingOf (nodes : Nodes) (id : String) (resolved : Bindings) : Rebinding :=
  { node := id
    bindings := resolved.union ((nodes.get? id).elim ∅ Node.bindings) }

/-- Settle the free parameters of a node so that its type becomes the other one. -/
def settle (nodes : Nodes) (id : String) (free : List String) (type other : TypeTree) :
    Metered (Except Reason (Option Rebinding)) :=
  match TypeTree.resolve free type other with
  | .ok b => return .ok (some (rebindingOf nodes id b))
  | .error o => do
    Metered.emit (.unresolvable o)
    return .error (.resolutionFailed o)

/-- Whether data may flow between two types, and which node gets new bindings by it. -/
def checkTypes (wire : Wire) (nodes : Nodes) (source target : TypeTree)
    (sourceFree targetFree : List String) : Metered (Except Reason (Option Rebinding)) :=
  match sourceFree.isEmpty, targetFree.isEmpty with
  | false, false => return .error .bothUnresolved
  | true, true => return if source.agrees target then .ok none else .error .typeMismatch
  | false, true => settle nodes wire.source sourceFree source target
  | true, false => settle nodes wire.target targetFree target source

/-- Whether two handles may be joined.  Control handles always may. -/
def checkHandles (wire : Wire) (nodes : Nodes) : Handle → Handle →
    Metered (Except Reason (Option Rebinding))
  | .control, .control => return .ok none
  | .data s sf, .data t tf => checkTypes wire nodes s t sf tf
  | .control, .data _ _ => return .error .kindMismatch
  | .data _ _, .control => return .error .kindMismatch

/-- A control output keeps one wire, and a data input keeps one wire. -/
def evictedBy (wire : Wire) (kind : HandleKind) (edges : List Edge) : List String :=
  match kind with
  | .control => (edges.filter (·.leaves wire.source wire.sourceHandle)).map Edge.id
  | .data => (edges.filter (·.enters wire.target wire.targetHandle)).map Edge.id

/-- The stroke of a wire that leaves a handle.  Control wires have none. -/
def stroke (theme : Theme) : Handle → Except Value.Mismatch (Option String)
  | .control => .ok none
  | .data type free => do
    let color ← if free.isEmpty then Color.ofSpelling theme.palette type.format
      else .ok theme.unresolved
    return some color.css

def accept (theme : Theme) (wire : Wire) (edges : List Edge) (source : Handle)
    (rebinding : Option Rebinding) : Metered Decision := do
  let evicted := evictedBy wire source.kind edges
  let stroke ← (stroke theme source).mapError Fault.value
  let edge : Edge :=
    { id := wire.edgeId, wire, animated := source.kind == .control, stroke }
  Metered.emit (.accepted source.kind)
  if !evicted.isEmpty then Metered.emit (.evicted evicted)
  return .accepted edge rebinding evicted

def reject (reason : Reason) : Metered Decision := do
  Metered.emit (.rejected reason)
  return .rejected reason

def judge (theme : Theme) (nodes : Nodes) (edges : List Edge) (wire : Wire) :
    Option Handle → Option Handle → Metered Decision
  | some s, some t => do
    match ← checkHandles wire nodes s t with
    | .ok rebinding => accept theme wire edges s rebinding
    | .error reason => reject reason
  | _, _ => reject .unknownHandle

/-- Decide on a wire.  The graph is not changed. -/
def validate (theme : Theme) (catalog : Catalog) (nodes : Nodes) (edges : List Edge)
    (wire : Wire) : Metered Decision := do
  let source ← (Handle.inspect nodes catalog wire.source wire.sourceHandle .output).mapError
    Fault.expression
  let target ← (Handle.inspect nodes catalog wire.target wire.targetHandle .input).mapError
    Fault.expression
  judge theme nodes edges wire source target

/-- The decision on a wire, without its samples. -/
def make (theme : Theme) (catalog : Catalog) (nodes : Nodes) (edges : List Edge) (wire : Wire) :
    Except Fault Decision :=
  (validate theme catalog nodes edges wire).result

/-- Install new bindings.  The node has to be there. -/
def rebind (nodes : Nodes) (r : Rebinding) : Option Nodes :=
  (nodes.get? r.node).map fun n => nodes.insert r.node { n with bindings := r.bindings }

/-- The nodes after a decision; only its new bindings matter. -/
def nodesAfter (nodes : Nodes) : Decision → Nodes
  | .accepted _ (some r) _ => (rebind nodes r).getD nodes
  | _ => nodes

end Decision

/-! ### Audit -/

/-- The decisions on the edges of a graph, in order. -/
abbrev Audit := Metered (List (Edge × Decision))

namespace Audit

/-- Each edge is judged against all edges of other ids, and against the bindings that the edges
before it settled. -/
def replay (catalog : Catalog) (all : List Edge) : Nodes → List Edge → Audit
  | _, [] => return []
  | nodes, e :: rest => do
    let d ← Decision.validate .standard catalog nodes (all.filter fun o => o.id != e.id) e.wire
    let later ← replay catalog all (d.nodesAfter nodes) rest
    return (e, d) :: later

def ofGraph (catalog : Catalog) (nodes : Nodes) (edges : List Edge) : Audit :=
  replay catalog edges nodes edges

def issuesOf (decisions : List (Edge × Decision)) : List (String × Reason) :=
  decisions.filterMap fun
    | (e, .rejected reason) => some (e.id, reason)
    | (_, .accepted ..) => none

def issues (a : Audit) : Except Fault (List (String × Reason)) := a.result.map issuesOf

end Audit
end Patchbay
