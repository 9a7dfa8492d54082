import Patchbay.Flow
import Patchbay.Proofs.Except
import Patchbay.Proofs.Graph.Decision
import Patchbay.Proofs.TypeTree.Document

/-!
Flow documents are read back as what was written.  `nodeOf_nodeValue` is the round trip of a node
and `ofDocument_toDocument` that of a graph: the nodes are the same, and the edges are the data
wires and then the routes, each between the handles that it had, under new ids.
-/

namespace Patchbay

def Wire.Named (w : Wire) : Prop :=
  ∃ s t, w.sourceHandle = some s ∧ w.targetHandle = some t ∧ s ≠ "" ∧ t ≠ ""

/-- A wire as a document tells it: a handle that is missing or empty is told as the trigger. -/
def Wire.pinned (w : Wire) : Wire :=
  { w with
    sourceHandle := some (Flow.pin w.sourceHandle)
    targetHandle := some (Flow.pin w.targetHandle) }

namespace Flow

/-! ### Nodes -/

theorem mode_ofValue_name (m : Mode) : Mode.ofValue (.str m.name) = .ok m := by
  cases m <;> rfl

theorem orEmpty_dict (fields : List (Value × Value)) :
    orEmpty (some (.dict fields)) = .dict fields := by
  cases fields <;> rfl

theorem bindingsOf_bindings (b : Bindings)
    (h : ∀ p t, b.get? p = some t → t.Proper ∧ ∀ l ∈ t.labels, l ≠ "") :
    bindingsOf ((b.entries.map fun e => (e.1, e.2.toValue)).map fun e => (.str e.1, e.2)) =
      .ok b := by
  rw [bindingsOf, List.map_map, mapM_map_eq_ok (h := id) fun e he => ?_, ok_bind, List.map_id,
    Table.ofList_entries]
  · rfl
  · obtain ⟨hproper, hnamed⟩ := h e.1 e.2 (Table.get?_eq_some_iff.mpr he)
    show bindingOf (.str e.1) e.2.toValue = .ok e
    rw [bindingOf, TypeTree.ofValue_toValue e.2 hproper hnamed]
    rfl

theorem lookup_sizeField_of_ne {name other : String} (h : name ≠ other) (v : Value)
    (rest : List (String × Value)) :
    (sizeField other v ++ rest).lookup name = rest.lookup name := by
  cases v <;> simp [sizeField, Table.lookup_cons_eq_ite, h]

theorem lookup_sizeField (name : String) (v : Value) (rest : List (String × Value))
    (h : rest.lookup name = none) :
    ((sizeField name v ++ rest).lookup name).getD .null = v := by
  cases v <;> simp [sizeField, h]

theorem nodeOf_nodeValue (n : Node)
    (h : ∀ p t, n.bindings.get? p = some t → t.Proper ∧ ∀ l ∈ t.labels, l ≠ "") :
    nodeOf (nodeValue n) = .ok n := by
  have hlookup : ∀ name, (nodeValue n).lookup? name = .ok ((nodeFields n).lookup name) :=
    fun name => Value.lookup?_record name (nodeFields n)
  have hid : textPart (nodeValue n) "id" = .ok n.id := rfl
  have hnodeType : textPart (nodeValue n) "node_type" = .ok n.nodeType := rfl
  have hmode : (nodeFields n).lookup "execution_type" = some (.str n.mode.name) := rfl
  have hinputs : (nodeFields n).lookup "inputs" = some (.dict n.inputs) := rfl
  have hposition : (nodeFields n).lookup "position" = some (positionValue n.position) := rfl
  have hbindings : (nodeFields n).lookup "generic_types" =
      some (.dict ((n.bindings.entries.map fun e => (e.1, e.2.toValue)).map
        fun e => (.str e.1, e.2))) := rfl
  have hwidth : ((nodeFields n).lookup "width").getD .null = n.width := by
    show ((sizeField "width" n.width ++ sizeField "height" n.height).lookup "width").getD .null = _
    refine lookup_sizeField _ _ _ ?_
    simpa using lookup_sizeField_of_ne (show "width" ≠ "height" by decide) n.height []
  have hheight : ((nodeFields n).lookup "height").getD .null = n.height := by
    show ((sizeField "width" n.width ++ sizeField "height" n.height).lookup "height").getD .null = _
    rw [lookup_sizeField_of_ne (by decide)]
    simpa using lookup_sizeField "height" n.height [] rfl
  have hplace : orEmpty (some (positionValue n.position)) = positionValue n.position := rfl
  have hx : coordinate "x" (positionValue n.position) = .ok n.position.x := rfl
  have hy : coordinate "y" (positionValue n.position) = .ok n.position.y := rfl
  have hunplaced : unplacedOf (nodeValue n) = .ok { n with position := .zero } := by
    simp only [unplacedOf, hlookup, hid, hnodeType, hmode, hinputs, hbindings, hwidth, hheight,
      mapError_ok, ok_bind, orEmpty_dict, Option.getD_some, mode_ofValue_name, Value.toFields,
      bindingsOf_bindings n.bindings h]
    rfl
  simp only [nodeOf, hlookup, hposition, hplace, hunplaced, hx, hy, mapError_ok, ok_bind]
  rfl

/-! ### Edges -/

variable {catalog : Catalog} {palette : Palette} {nodes : Nodes} {e : Edge}

theorem pin_some {s : String} (h : s ≠ "") : pin (some s) = s := by
  unfold pin
  split
  · next hn => cases hn
  · next he => cases he; exact absurd rfl h
  · next hs => cases hs; rfl

theorem pinned_of_named {w : Wire} (h : w.Named) : w.pinned = w := by
  obtain ⟨s, t, hs, ht, hsne, htne⟩ := h
  rw [Wire.pinned, hs, ht, pin_some hsne, pin_some htne, ← hs, ← ht]

theorem dataEdgeOf_dataEdge (index : Nat) {h : Option Handle} {css : Option String}
    (hfound : e.wire.pinned.inspect catalog nodes .output = .ok h)
    (hcss : strokeOf palette h = .ok css) :
    dataEdgeOf catalog palette nodes index (dataEdge e) = .ok
      { id := "data-" ++ toString index, wire := e.wire.pinned, animated := false,
        stroke := css } := by
  have hsource : textPart (dataEdge e) "source_id" = .ok e.wire.source := rfl
  have htarget : textPart (dataEdge e) "target_id" = .ok e.wire.target := rfl
  have hsourcePin : textPart (dataEdge e) "source_pin" = .ok (pin e.wire.sourceHandle) := rfl
  have htargetPin : textPart (dataEdge e) "target_pin" = .ok (pin e.wire.targetHandle) := rfl
  have hinspect : Handle.inspect nodes catalog e.wire.source (some (pin e.wire.sourceHandle))
      .output = .ok h := hfound
  simp only [dataEdgeOf, hsource, htarget, hsourcePin, htargetPin, hinspect, hcss, ok_bind,
    mapError_ok]
  rfl

theorem routeEdgeOf_routeEdge (hroute : e.isRoute = true) (index : Nat) :
    routeEdgeOf index (routeEdge e) = .ok
      { id := "route-" ++ toString index, wire := e.wire.pinned, animated := true,
        stroke := none } := by
  have ht : e.wire.targetHandle = some triggerHandle := by simpa [Edge.isRoute] using hroute
  have hsource : textPart (routeEdge e) "source_id" = .ok e.wire.source := rfl
  have htarget : textPart (routeEdge e) "target_id" = .ok e.wire.target := rfl
  have hsourcePin : textPart (routeEdge e) "source_pin" = .ok (pin e.wire.sourceHandle) := rfl
  simp only [routeEdgeOf, hsource, htarget, hsourcePin, ok_bind, Wire.pinned, ht]
  rfl

/-! ### Graphs -/

/-- Edges that are numbered as they are read. -/
theorem mapM_numbered {read : Nat → Value → Except Fault Edge} {write : Edge → Value}
    {result : Nat → Edge → Edge} (edges : List Edge)
    (h : ∀ e ∈ edges, ∀ i, read i (write e) = .ok (result i e)) :
    (numbered (edges.map write)).mapM (fun (i, v) => read i v) = .ok (edges.mapIdx result) := by
  have hpairs : numbered (edges.map write) = edges.zipIdx.map fun p => (p.2, write p.1) := by
    rw [numbered, List.zipIdx_map, List.map_map]
    rfl
  rw [hpairs, List.mapIdx_eq_zipIdx_map]
  refine mapM_map_eq_ok fun p hp => ?_
  exact h p.1 (List.fst_mem_of_mem_zipIdx hp) p.2

theorem exists_strokeOf (colors : Table Rgb) (h : Option Handle) :
    ∃ css, strokeOf (.ofColors colors) h = .ok css := by
  rcases h with _ | _ | ⟨type, free⟩
  · exact ⟨none, rfl⟩
  · exact ⟨none, rfl⟩
  · obtain ⟨css, hcss⟩ := Decision.exists_stroke colors .unresolved (.data type [])
    exact ⟨css, by rw [strokeOf, hcss, mapError_ok]⟩

/-- The edges that are read where `edges` were written. -/
def readBack (stroke : Edge → Option String) (edges : List Edge) : List Edge :=
  ((edges.filter fun e => !e.isRoute).mapIdx fun i e =>
    { id := "data-" ++ toString i, wire := e.wire.pinned, animated := false,
      stroke := stroke e }) ++
  ((edges.filter Edge.isRoute).mapIdx fun i e =>
    { id := "route-" ++ toString i, wire := e.wire.pinned, animated := true, stroke := none })

/-- The stroke of an edge is that of the handle at its source. -/
def StrokedBy (catalog : Catalog) (colors : Table Rgb) (nodes : Nodes) (e : Edge)
    (css : Option String) : Prop :=
  ∃ h, e.wire.pinned.inspect catalog nodes .output = .ok h ∧ strokeOf (.ofColors colors) h = .ok css

theorem ofDocument_toDocument_pinned {nodes : List Node} {edges : List Edge} (colors : Table Rgb)
    (hbound : ∀ n ∈ nodes, ∀ p t, n.bindings.get? p = some t →
      t.Proper ∧ ∀ l ∈ t.labels, l ≠ "")
    (hfound : ∀ e ∈ edges, ∃ h,
      e.wire.pinned.inspect catalog (Nodes.ofList nodes) .output = .ok h) :
    ∃ stroke : Edge → Option String,
      (∀ e ∈ edges, StrokedBy catalog colors (Nodes.ofList nodes) e (stroke e)) ∧
      ofDocument catalog (.ofColors colors) (toDocument nodes edges) =
        .ok (nodes, readBack stroke edges) := by
  -- Strokes are not written down.  They are found again from the nodes, which come back first.
  have hcss : ∀ e, ∃ css, e ∈ edges → StrokedBy catalog colors (Nodes.ofList nodes) e css := by
    intro e
    by_cases he : e ∈ edges
    · obtain ⟨h, hh⟩ := hfound e he
      obtain ⟨css, hcss⟩ := exists_strokeOf colors h
      exact ⟨css, fun _ => ⟨h, hh, hcss⟩⟩
    · exact ⟨none, fun h => absurd h he⟩
  obtain ⟨stroke, hstroke⟩ := Classical.skolem.mp hcss
  refine ⟨stroke, hstroke, ?_⟩
  have hnodes : (nodes.map nodeValue).mapM nodeOf = .ok (nodes.map id) :=
    mapM_map_eq_ok fun n hn => nodeOf_nodeValue n (hbound n hn)
  have hdata := mapM_numbered (edges.filter fun e => !e.isRoute) fun e he i => by
    obtain ⟨h, hh, hcss⟩ := hstroke e (List.mem_filter.mp he).1
    exact dataEdgeOf_dataEdge i hh hcss
  have hroutes := mapM_numbered (edges.filter Edge.isRoute) fun e he i =>
    routeEdgeOf_routeEdge (List.mem_filter.mp he).2 i
  let fields : List (Value × Value) :=
    (("nodes", .list (nodes.map nodeValue)) :: edgeLists Edge.isRoute edges).map
      fun e => (.str e.1, e.2)
  have hnodeList : listOf fields "nodes" = .ok (nodes.map nodeValue) := rfl
  have hdataList : listOf fields "edges" =
      .ok ((edges.filter fun e => !e.isRoute).map dataEdge) := rfl
  have hrouteList : listOf fields "route_edges" =
      .ok ((edges.filter Edge.isRoute).map routeEdge) := rfl
  show (graphOfFields catalog (.ofColors colors) fields).mapError asFlowFault = _
  simp only [graphOfFields, hnodeList, hdataList, hrouteList, hnodes, List.map_id, hdata, hroutes,
    ok_bind]
  rfl

theorem ofDocument_toDocument {nodes : List Node} {edges : List Edge} (colors : Table Rgb)
    (hbound : ∀ n ∈ nodes, ∀ p t, n.bindings.get? p = some t →
      t.Proper ∧ ∀ l ∈ t.labels, l ≠ "")
    (hnamed : ∀ e ∈ edges, e.wire.Named)
    (hfound : ∀ e ∈ edges, ∃ h, Handle.inspect (Nodes.ofList nodes) catalog e.wire.source
      e.wire.sourceHandle .output = .ok h) :
    ∃ stroke : Edge → Option String,
      (∀ e ∈ edges, StrokedBy catalog colors (Nodes.ofList nodes) e (stroke e)) ∧
      ofDocument catalog (.ofColors colors) (toDocument nodes edges) = .ok (nodes,
        ((edges.filter fun e => !e.isRoute).mapIdx fun i e =>
          { id := "data-" ++ toString i, wire := e.wire, animated := false, stroke := stroke e }) ++
        ((edges.filter Edge.isRoute).mapIdx fun i e =>
          { id := "route-" ++ toString i, wire := e.wire, animated := true, stroke := none })) := by
  have hpinned : ∀ e ∈ edges, e.wire.pinned = e.wire := fun e he => pinned_of_named (hnamed e he)
  obtain ⟨stroke, hstroke, hread⟩ := ofDocument_toDocument_pinned colors hbound fun e he => by
    rw [hpinned e he]
    exact hfound e he
  refine ⟨stroke, hstroke, ?_⟩
  have hmem : ∀ {p : Edge → Bool} {i : Nat} (hi : i < (edges.filter p).length),
      (edges.filter p)[i].wire.pinned = (edges.filter p)[i].wire := fun hi =>
    hpinned _ (List.mem_filter.mp (List.getElem_mem hi)).1
  rw [hread, readBack]
  congr 3
  · exact List.mapIdx_eq_mapIdx_iff.mpr fun i hi => by rw [hmem hi]
  · exact List.mapIdx_eq_mapIdx_iff.mpr fun i hi => by rw [hmem hi]

end Flow
end Patchbay
