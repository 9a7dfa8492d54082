import Patchbay.Editor.Basic

/-!
Sessions with an editor: named snapshots and decisions are kept, and a registry takes the samples of
every decision, also of those before a fault.
-/

namespace Patchbay

structure Session where
  editor : Editor
  snapshots : Table Graph := ∅
  decisions : Table Decision := ∅
  registry : Registry := .empty

inductive Action where
  | add (nodeType : String) (position : Position)
  | look (id : String)
  | duplicate (id : String)
  | delete (id : String)
  | setInputs (id : String) (values : Value)
  | setMode (id : String) (mode : Value)
  | resetBindings (id : String)
  | handles (id : String) (side : Side)
  | connect (wire : Wire)
  /-- Decide on a wire with the standard colors and keep the decision under a name. -/
  | validate (wire : Wire) (name : String)
  /-- Install a decision that was validated in this session, maybe in an earlier graph. -/
  | apply (name : String)
  | removeEdges (ids : List String)
  | snapshot (name : String)
  | restore (name : String)
  | reset
  | load (nodes : List Node) (edges : List Edge)
  | importDocument (document : Value)
  | reload
  | exportText
  | request
  | audit

inductive Outcome where
  | done
  | node (n : Node)
  | views (vs : List HandleView)
  | decision (d : Decision)
  | text (s : String)
  | document (v : Value)
  | issues (is : List (String × Reason))

structure Report where
  session : Session
  result : Except Fault Outcome
  log : List LogRecord := []

namespace Session

def withEditor (s : Session) (ed : Editor) : Session := { s with editor := ed }

def withRegistry (s : Session) (r : Registry) : Session := { s with registry := r }

def stepped {α : Type} (s : Session) (outcome : α → Outcome) : Except Fault (Change α) → Report
  | .ok c => { session := s.withEditor c.editor, result := .ok (outcome c.result), log := c.log }
  | .error f => { session := s, result := .error f }

def answered (s : Session) (r : Except Fault Outcome) : Report := { session := s, result := r }

def changed (s : Session) (ed : Editor) : Report :=
  { session := s.withEditor ed, result := .ok .done }

def kept {α : Type} (t : Table α) (name : String) : Except Fault α :=
  match t.get? name with
  | some x => .ok x
  | none => .error (.value (.missing name))

def connect (s : Session) (wire : Wire) : Report :=
  let (result, registry) := (s.editor.attach wire).on s.registry
  (s.withRegistry registry).stepped .decision result

def validate (s : Session) (wire : Wire) (name : String) : Report :=
  let (result, registry) := (s.editor.validate .standard wire).on s.registry
  let decisions := match result with
    | .ok d => s.decisions.insert name d
    | .error _ => s.decisions
  { s.withRegistry registry with decisions }.answered (result.map .decision)

def audit (s : Session) : Report :=
  let (result, registry) := s.editor.audit.on s.registry
  (s.withRegistry registry).answered
    (result.map fun decisions => .issues (Audit.issuesOf decisions))

def perform (s : Session) : Action → Report
  | .add nodeType position => s.stepped .node (s.editor.addNode nodeType position)
  | .look id => s.answered ((s.editor.node id).map .node)
  | .duplicate id => s.stepped .node (s.editor.duplicateNode id)
  | .delete id => s.stepped (fun _ => .done) (s.editor.deleteNode id)
  | .setInputs id values => s.stepped .node (s.editor.setInputs id values)
  | .setMode id mode => s.stepped .node ((Mode.ofValue mode).bind (s.editor.setMode id))
  | .resetBindings id => s.stepped .node (s.editor.resetBindings id)
  | .handles id side => s.answered ((s.editor.handles id side).map .views)
  | .connect wire => s.connect wire
  | .validate wire name => s.validate wire name
  | .apply name => s.stepped (fun _ => .done) ((kept s.decisions name).bind s.editor.apply)
  | .removeEdges ids => s.changed (s.editor.removeEdges ids)
  | .snapshot name =>
    { session := { s with snapshots := s.snapshots.insert name s.editor.graph }
      result := .ok .done }
  | .restore name =>
    match kept s.snapshots name with
    | .error f => s.answered (.error f)
    | .ok g => s.changed (s.editor.restore g)
  | .reset => s.changed s.editor.reset
  | .load nodes edges => s.changed (s.editor.load nodes edges)
  | .importDocument document =>
    match s.editor.importDocument document with
    | .error f => s.answered (.error f)
    | .ok ed => s.changed ed
  | .reload => s.stepped .text s.editor.reload
  | .exportText => s.answered (.ok (.text s.editor.exportText))
  | .request => s.answered (.ok (.document s.editor.request))
  | .audit => s.audit

end Session
end Patchbay
