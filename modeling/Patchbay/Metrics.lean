import Patchbay.Fault
import Patchbay.Table

/-!
Metrics: samples of named quantities, kept in the order in which they were taken.  `Metered` steps
record samples on their way and may fail.
-/

namespace Patchbay

structure Sample where
  name : String
  value : Float
  kind : String
  tags : Table String

structure Series where
  name : String
  kind : String
  description : Option String
  samples : List Sample

namespace Metrics

structure Description where
  kind : String
  text : String

def accepted : String := "flowtypes.connection.accepted"

def rejected : String := "flowtypes.connection.rejected"

def unresolvable : String := "flowtypes.resolution.failed"

def evicted : String := "flowtypes.edges.evicted"

def describe? (name : String) : Option Description :=
  if name = accepted then
    some ⟨"counter", "Wires accepted by the connection validator"⟩
  else if name = rejected then
    some ⟨"counter", "Wires rejected by the connection validator, tagged by reason"⟩
  else if name = unresolvable then
    some ⟨"counter", "Generic resolutions that failed during a connection attempt"⟩
  else if name = evicted then
    some ⟨"counter", "Existing edges removed to make room for a new wire"⟩
  else none

/-- The kind of a quantity: the given one, else the described one, else a gauge. -/
def kindOf (name : String) : Option String → String
  | some "" => ((describe? name).map Description.kind).getD "gauge"
  | some kind => kind
  | none => ((describe? name).map Description.kind).getD "gauge"

end Metrics

namespace Sample

def make (name : String) (value : Float) (tags : Table String) : Sample :=
  { name, value, kind := Metrics.kindOf name none, tags }

/-- A name that is no text, or an empty one, names nothing. -/
def nameOfValue : Value → Except Fault String
  | .str s => if s = "" then .error .metricName else .ok s
  | _ => .error .metricName

/-- Numbers and the texts of numbers are values. -/
def numberOfValue (v : Value) : Except Fault Float :=
  match v with
  | .bool b => .ok (if b then 1.0 else 0.0)
  | .int n => (Value.realOfInteger n).mapError .value
  | .float x => .ok x
  | .str s => ((Value.str s).toReal).mapError fun _ => .metricValue v
  | _ => .error (.metricValue v)

/-- Tags are texts whatever was given for them. -/
def tagsOfValue (v : Value) : Except Fault (Table String) :=
  if v.truthy then
    match v with
    | .dict fields => .ok (Table.ofList (fields.map fun (k, x) => (k.text, x.text)))
    | _ => .error (.value (.noMember v.kind "items"))
  else .ok ∅

def ofValues (name value : Value) (kind : Option String) (tags : Value) : Except Fault Sample := do
  let name ← nameOfValue name
  let value ← numberOfValue value
  let tags ← tagsOfValue tags
  return { name, value, kind := Metrics.kindOf name kind, tags }

/-- A tag is asked to have a value, or to be absent. -/
def tagHolds (s : Sample) (tag : String) : Value → Bool
  | .str x => s.tags.get? tag == some x
  | .null => !s.tags.contains tag
  | _ => false

def toValue (s : Sample) : Value :=
  let head := [("name", .str s.name), ("value", .float s.value), ("kind", .str s.kind)]
  let tags := s.tags.entries.map fun (k, x) => (k, Value.str x)
  .record (if s.tags.isEmpty then head else head ++ [("tags", .record tags)])

end Sample

namespace Series

/-- The sum from left to right; a whole zero if there is no sample. -/
def total (s : Series) : Value :=
  if s.samples.isEmpty then .int 0
  else .float (s.samples.foldl (fun sum x => sum + x.value) 0.0)

def countWhere (s : Series) (tags : List (String × Value)) : Nat :=
  s.samples.countP fun x => tags.all fun (k, v) => x.tagHolds k v

def summary (s : Series) : Value :=
  let head := [("name", .str s.name), ("kind", .str s.kind),
    ("count", .int s.samples.length), ("total", s.total)]
  let description := match s.description with
    | some d => if d = "" then [] else [("description", Value.str d)]
    | none => []
  let last := match s.samples.getLast? with
    | some x => [("last", x.toValue)]
    | none => []
  .record (head ++ description ++ last)

end Series

/-- Series by name, in the order of their first samples. -/
structure Registry where
  series : Table Series

namespace Registry

def empty : Registry := ⟨∅⟩

/-- A series takes its kind from its first sample. -/
def record (r : Registry) (x : Sample) : Registry :=
  let s := (r.series.get? x.name).getD
    { name := x.name
      kind := x.kind
      description := (Metrics.describe? x.name).map Metrics.Description.text
      samples := [] }
  ⟨r.series.insert x.name { s with samples := s.samples ++ [x] }⟩

def series? (r : Registry) (name : String) : Option Series := r.series.get? name

def summaries (r : Registry) : List (String × Value) :=
  r.series.entries.map fun (name, s) => (name, s.summary)

end Registry

/-! ### Steps -/

/-- A step that records samples and may fail.  A fault keeps what was recorded before it. -/
abbrev Metered := ExceptT Fault (StateM Registry)

namespace Metered

variable {α : Type}

def emit (x : Sample) : Metered Unit := modify fun r => r.record x

/-- What comes of a step, and the registry after it. -/
def on (x : Metered α) (r : Registry) : Except Fault α × Registry := Id.run (StateT.run x.run r)

def result (x : Metered α) : Except Fault α := (x.on .empty).1

end Metered
end Patchbay
