import Patchbay.Proofs.Editor.Structure
import Patchbay.Proofs.Flow.RoundTrip
import Patchbay.Proofs.Graph.Typing

/-!
Saving a graph, loading it, and saving it again.  Loading undoes saving where every edge names its
handles (`ofDocument_toDocument_of_readable`).

A handle that is missing is saved as the trigger.  At the source of an edge that changes nothing in
the document.  At the target it does: the edge is saved among the data wires, but with the trigger
for its target, and what is loaded for it is a route.  So a document is saved again as it was
exactly if every edge names the handle at its target (`toDocument_stable_iff`), and after one more
round nothing changes any more.
-/

namespace Patchbay

/-! ### Catalogs -/

def Catalog.Readable (catalog : Catalog) : Prop :=
  ∀ t ∈ catalog.values, ∀ p ∈ t.inputs ++ t.outputs, (TypeTree.parse p.type).isOk = true

instance (catalog : Catalog) : Decidable catalog.Readable :=
  inferInstanceAs (Decidable (∀ t ∈ catalog.values, ∀ p ∈ t.inputs ++ t.outputs,
    (TypeTree.parse p.type).isOk = true))

theorem Catalog.Readable.exists_parse {catalog : Catalog} (h : catalog.Readable) {key name : String}
    {t : NodeType} {side : Side} {p : Port} (ht : catalog.get? key = some t)
    (hp : t.port? name side = some p) : ∃ d, TypeTree.parse p.type = .ok d := by
  have hport : p ∈ t.inputs ++ t.outputs := by
    have hmem : p ∈ t.ports side := List.mem_of_find?_eq_some hp
    cases side with
    | output => exact List.mem_append_right _ hmem
    | input => exact List.mem_append_left _ hmem
  have hok := h t (mem_values ht) p hport
  cases hd : TypeTree.parse p.type with
  | error f => simp [hd, Except.isOk, Except.toBool] at hok
  | ok d => exact ⟨d, rfl⟩

theorem Handle.exists_ofPort {p : Port} {d : TypeTree} (hd : TypeTree.parse p.type = .ok d)
    (t : NodeType) (n : Node) : ∃ x, Handle.ofPort t n p = .ok x := by
  unfold ofPort
  split
  · exact ⟨.control, rfl⟩
  · exact ⟨.data (d.substitute n.bindings) (freeParams t n), by rw [effectiveType, hd]; rfl⟩

theorem Catalog.Readable.exists_inspect {catalog : Catalog} (h : catalog.Readable) (nodes : Nodes)
    (w : Wire) (side : Side) : ∃ x, w.inspect catalog nodes side = .ok x := by
  unfold Wire.inspect Handle.inspect
  split
  · exact ⟨none, rfl⟩
  · exact ⟨none, rfl⟩
  · next name _ _ =>
    cases nodes.get? (w.node side) with
    | none => exact ⟨none, rfl⟩
    | some n =>
      cases ht : catalog.get? n.nodeType with
      | none => exact ⟨none, by simp only [ht]⟩
      | some t =>
        simp only [ht, Handle.ofNode]
        split
        · exact ⟨_, rfl⟩
        · cases hp : t.port? name side with
          | none => exact ⟨none, rfl⟩
          | some p =>
            obtain ⟨d, hd⟩ := h.exists_parse ht hp
            obtain ⟨x, hx⟩ := Handle.exists_ofPort hd t n
            exact ⟨some x, by simp only [hx, Except.map]⟩

namespace Flow

/-! ### Numbered edges -/

section Numbered

variable {α : Type} {number : Nat → Edge → Edge} {view : Edge → α}

theorem map_filter_mapIdx {p q : Edge → Bool} (h : ∀ i e, view (number i e) = view e)
    (hp : ∀ i e, p (number i e) = q e) (edges : List Edge) :
    ((edges.mapIdx number).filter p).map view = (edges.filter q).map view := by
  induction edges generalizing number with
  | nil => rfl
  | cons e edges ih =>
    have hrest := ih (fun i => h (i + 1)) fun i => hp (i + 1)
    rw [List.mapIdx_cons, List.filter_cons, List.filter_cons, hp]
    split
    · rw [List.map_cons, List.map_cons, h, hrest]
    · exact hrest

theorem map_mapIdx (h : ∀ i e, view (number i e) = view e) (edges : List Edge) :
    (edges.mapIdx number).map view = edges.map view := by
  have hall := map_filter_mapIdx (p := fun _ => true) h (fun _ _ => rfl) edges
  rwa [List.filter_true, List.filter_true] at hall

end Numbered

/-! ### Loading undoes saving -/

theorem ofDocument_toDocument_of_readable (catalog : Catalog) (hreadable : catalog.Readable)
    (colors : Table Rgb) (nodes : List Node)
    (hbound : ∀ n ∈ nodes, ∀ p t, n.bindings.get? p = some t → t.Writable) (edges : List Edge)
    (hnamed : ∀ e ∈ edges, e.wire.Named) :
    ∃ read, ofDocument catalog (.ofColors colors) (toDocument nodes edges) = .ok (nodes, read) ∧
      (∃ stroke : Edge → Option String,
        (∀ e ∈ edges, StrokedBy catalog colors (Nodes.ofList nodes) e (stroke e)) ∧
        read = ((edges.filter fun e => !e.isRoute).mapIdx fun i e =>
          { id := "data-" ++ toString i, wire := e.wire, animated := false, stroke := stroke e }) ++
        ((edges.filter Edge.isRoute).mapIdx fun i e =>
          { id := "route-" ++ toString i, wire := e.wire, animated := true, stroke := none })) ∧
      (read.map Edge.wire).Perm (edges.map Edge.wire) := by
  obtain ⟨stroke, hstroke, hread⟩ := ofDocument_toDocument colors
    (fun n hn p t ht => ⟨(hbound n hn p t ht).proper, (hbound n hn p t ht).named⟩) hnamed
    fun e _ => hreadable.exists_inspect (Nodes.ofList nodes) e.wire .output
  refine ⟨_, hread, ⟨stroke, hstroke, rfl⟩, ?_⟩
  have hparts := (List.filter_append_perm (fun e : Edge => !e.isRoute) edges).map Edge.wire
  rw [List.map_append, map_mapIdx, map_mapIdx]
  · simpa using hparts
  · exact fun _ _ => rfl
  · exact fun _ _ => rfl

/-! A graph with a route between two data wires, a type that is bound, and sizes and inputs that
count as false. -/

def savedNodes : List Node := [
  Editor.startNode "start",
  { id := "1", nodeType := "Number", mode := .data, inputs := [(.str "value", .int 0)],
    width := .int 0 },
  { id := "2", nodeType := "Box", bindings := Table.ofList [("T", .node "int" [])],
    height := .float 0.0 },
  { id := "3", nodeType := "Show", position := .zero }]

def savedEdges : List Edge := [
  { id := "a", wire := ⟨"1", some "value", "2", some "item"⟩ },
  { id := "b", wire := ⟨"start", some "_", "3", some "_"⟩, animated := true },
  { id := "c", wire := ⟨"2", some "box", "3", some "any"⟩ }]

theorem writable_savedNodes :
    ∀ n ∈ savedNodes, ∀ p t, n.bindings.get? p = some t → t.Writable := by
  intro n hn p t ht
  have hentry := Table.get?_eq_some_iff.mp ht
  simp only [savedNodes, List.mem_cons, List.not_mem_nil, or_false] at hn
  rcases hn with rfl | rfl | rfl | rfl
  · cases hentry
  · cases hentry
  · obtain ⟨rfl, rfl⟩ : p = "T" ∧ t = .node "int" [] := by
      simpa [Table.ofList, Table.insert, Table.empty, Table.put] using hentry
    exact ⟨TypeTree.proper_node.mpr ⟨fun _ => rfl, by simp⟩, by decide⟩
  · cases hentry

theorem ofDocument_toDocument_of_readable_sample :
    Session.sampleCatalog.Readable ∧
    (∀ n ∈ savedNodes, ∀ p t, n.bindings.get? p = some t → t.Writable) ∧
    (∀ e ∈ savedEdges, e.wire.Named) ∧
    ∃ read, ofDocument Session.sampleCatalog .standard (toDocument savedNodes savedEdges) =
        .ok (savedNodes, read) ∧
      read.map (fun e => (e.id, e.wire, e.animated)) = [
        ("data-0", ⟨"1", some "value", "2", some "item"⟩, false),
        ("data-1", ⟨"2", some "box", "3", some "any"⟩, false),
        ("route-0", ⟨"start", some "_", "3", some "_"⟩, true)] := by
  have hreadable : Session.sampleCatalog.Readable := by decide +kernel
  have hnamed : ∀ e ∈ savedEdges, e.wire.Named := by
    simp [savedEdges, Wire.Named]
  obtain ⟨read, hread, ⟨stroke, -, hedges⟩, -⟩ := ofDocument_toDocument_of_readable
    Session.sampleCatalog hreadable Palette.standardColors savedNodes writable_savedNodes
    savedEdges hnamed
  refine ⟨hreadable, writable_savedNodes, hnamed, read, hread, ?_⟩
  have hids : "data-" ++ Nat.repr 0 = "data-0" ∧ "data-" ++ Nat.repr 1 = "data-1" ∧
      "route-" ++ Nat.repr 0 = "route-0" := by decide
  rw [hedges]
  simpa [savedEdges, Edge.isRoute, triggerHandle] using hids

/-! ### Saving again -/

theorem pin_ne_empty (h : Option String) : pin h ≠ "" := by
  unfold pin
  split
  · decide
  · decide
  · next hne => exact hne

theorem pin_pin (h : Option String) : pin (some (pin h)) = pin h := pin_some (pin_ne_empty h)

theorem dataEdge_of_pinned {e f : Edge} (h : f.wire = e.wire.pinned) : dataEdge f = dataEdge e := by
  simp only [dataEdge, h, Wire.pinned, pin_pin]

theorem routeEdge_of_pinned {e f : Edge} (h : f.wire = e.wire.pinned) :
    routeEdge f = routeEdge e := by
  simp only [routeEdge, h, Wire.pinned, pin_pin]

end Flow

def Wire.isAimed (w : Wire) : Bool := w.targetHandle.any (· != "")

theorem Wire.isAimed_pinned (w : Wire) : w.pinned.isAimed = true := by
  simp [isAimed, pinned, Flow.pin_ne_empty]

/-- An edge without a target is told as a route. -/
theorem Edge.isRoute_of_pinned {e f : Edge} (h : f.wire = e.wire.pinned) :
    f.isRoute = (e.isRoute || !e.wire.isAimed) := by
  have hpin : f.isRoute = (Flow.pin e.wire.targetHandle == triggerHandle) := by
    simp [Edge.isRoute, h, Wire.pinned]
  rw [hpin, Edge.isRoute, Wire.isAimed]
  rcases e.wire.targetHandle with _ | s
  · rfl
  · by_cases hs : s = ""
    · subst hs
      rfl
    · simp [Flow.pin_some hs, hs]

theorem Edge.isAimed_of_isRoute {e : Edge} (h : e.isRoute = true) : e.wire.isAimed = true := by
  have ht : e.wire.targetHandle = some triggerHandle := by simpa [Edge.isRoute] using h
  rw [Wire.isAimed, ht]
  rfl

namespace Flow

/-- The document that is saved after a graph was saved and loaded. -/
def resaved (nodes : List Node) (edges : List Edge) : Value :=
  .record [("nodes", .list (nodes.map nodeValue)),
    ("edges", .list ((edges.filter fun e => !e.isRoute && e.wire.isAimed).map dataEdge)),
    ("route_edges", .list
      (((edges.filter fun e => !e.wire.isAimed) ++ edges.filter Edge.isRoute).map routeEdge))]

theorem toDocument_readBack (nodes : List Node) (stroke : Edge → Option String)
    (edges : List Edge) : toDocument nodes (readBack stroke edges) = resaved nodes edges := by
  have hdata : ((readBack stroke edges).filter fun e => !e.isRoute).map dataEdge =
      (edges.filter fun e => !e.isRoute && e.wire.isAimed).map dataEdge := by
    have hkind : ∀ {e f : Edge}, f.wire = e.wire.pinned →
        (!f.isRoute) = (!e.isRoute && e.wire.isAimed) := fun h => by
      simp [Edge.isRoute_of_pinned h]
    rw [readBack, List.filter_append, List.map_append,
      map_filter_mapIdx (fun _ _ => dataEdge_of_pinned rfl) (fun _ _ => hkind rfl),
      map_filter_mapIdx (fun _ _ => dataEdge_of_pinned rfl) (fun _ _ => hkind rfl),
      List.filter_filter, List.filter_filter]
    have hnone : (edges.filter fun e => (!e.isRoute && e.wire.isAimed) && e.isRoute) = [] := by
      rw [List.filter_eq_nil_iff]
      intro e _
      cases e.isRoute <;> simp
    rw [hnone, List.map_nil, List.append_nil]
    congr 1
    exact List.filter_congr fun e _ => by cases e.isRoute <;> simp
  have hroutes : ((readBack stroke edges).filter Edge.isRoute).map routeEdge =
      ((edges.filter fun e => !e.wire.isAimed) ++ edges.filter Edge.isRoute).map routeEdge := by
    rw [readBack, List.filter_append, List.map_append,
      map_filter_mapIdx (fun _ _ => routeEdge_of_pinned rfl)
        (fun _ _ => Edge.isRoute_of_pinned rfl),
      map_filter_mapIdx (fun _ _ => routeEdge_of_pinned rfl)
        (fun _ _ => Edge.isRoute_of_pinned rfl),
      List.filter_filter, List.filter_filter, List.map_append]
    congr 2
    · refine List.filter_congr fun e _ => ?_
      cases hroute : e.isRoute with
      | false => simp
      | true => simp [Edge.isAimed_of_isRoute hroute]
    · exact List.filter_congr fun e _ => by cases e.isRoute <;> simp
  rw [toDocument, edgeLists, hdata, hroutes, resaved]

theorem resaved_eq_iff (nodes : List Node) (edges : List Edge) :
    resaved nodes edges = toDocument nodes edges ↔ ∀ e ∈ edges, e.wire.isAimed = true := by
  constructor
  · intro h
    simp only [resaved, toDocument, edgeLists, Value.record, List.map_cons, List.map_nil,
      Value.dict.injEq, List.cons.injEq, Prod.mk.injEq, Value.list.injEq, true_and, and_true] at h
    -- No route gets lost, so the list of routes stays as long as it was only if none is added.
    have hlengths := congrArg List.length h.2
    rw [List.length_map, List.length_map, List.length_append] at hlengths
    have hnone : (edges.filter fun e => !e.wire.isAimed) = [] :=
      List.length_eq_zero_iff.mp (by omega)
    intro e he
    simpa using List.filter_eq_nil_iff.mp hnone e he
  · intro h
    have hnone : (edges.filter fun e => !e.wire.isAimed) = [] :=
      List.filter_eq_nil_iff.mpr fun e he => by simp [h e he]
    have hdata : (edges.filter fun e => !e.isRoute && e.wire.isAimed) =
        edges.filter fun e => !e.isRoute :=
      List.filter_congr fun e he => by simp [h e he]
    rw [resaved, toDocument, edgeLists, hnone, hdata, List.nil_append]

theorem isAimed_readBack {stroke : Edge → Option String} {edges : List Edge} {e : Edge}
    (he : e ∈ readBack stroke edges) : e.wire.isAimed = true := by
  rcases List.mem_append.mp he with he | he
  · obtain ⟨i, hi, rfl⟩ := List.mem_mapIdx.mp he
    exact Wire.isAimed_pinned _
  · obtain ⟨i, hi, rfl⟩ := List.mem_mapIdx.mp he
    exact Wire.isAimed_pinned _

theorem exists_readBack {catalog : Catalog} (hreadable : catalog.Readable) (colors : Table Rgb)
    {nodes : List Node}
    (hbound : ∀ n ∈ nodes, ∀ p t, n.bindings.get? p = some t → t.Writable) (edges : List Edge) :
    ∃ stroke, ofDocument catalog (.ofColors colors) (toDocument nodes edges) =
      .ok (nodes, readBack stroke edges) := by
  obtain ⟨stroke, -, hread⟩ := ofDocument_toDocument_pinned colors
    (fun n hn p t ht => ⟨(hbound n hn p t ht).proper, (hbound n hn p t ht).named⟩)
    fun e _ => hreadable.exists_inspect (Nodes.ofList nodes) e.wire.pinned .output
  exact ⟨stroke, hread⟩

/-- What is saved is what was read exactly if every wire is aimed, and saving again changes nothing
more.  Coordinates are floats; a whole number would become one when it is read. -/
theorem toDocument_stable_iff (catalog : Catalog) (hreadable : catalog.Readable)
    (colors : Table Rgb) (nodes : List Node)
    (hbound : ∀ n ∈ nodes, ∀ p t, n.bindings.get? p = some t → t.Writable) (edges : List Edge) :
    ∃ read, ofDocument catalog (.ofColors colors) (toDocument nodes edges) = .ok (nodes, read) ∧
      toDocument nodes read = resaved nodes edges ∧
      (toDocument nodes read = toDocument nodes edges ↔ ∀ e ∈ edges, e.wire.isAimed = true) ∧
      ∃ again, ofDocument catalog (.ofColors colors) (toDocument nodes read) = .ok (nodes, again) ∧
        toDocument nodes again = toDocument nodes read := by
  obtain ⟨stroke, hread⟩ := exists_readBack hreadable colors hbound edges
  obtain ⟨stroke', hagain⟩ := exists_readBack hreadable colors hbound (readBack stroke edges)
  refine ⟨_, hread, toDocument_readBack nodes stroke edges, ?_, _, hagain, ?_⟩
  · rw [toDocument_readBack]
    exact resaved_eq_iff nodes edges
  · rw [toDocument_readBack]
    exact (resaved_eq_iff nodes _).mpr fun e he => isAimed_readBack he

/-- An edge without a handle at its source is no obstacle. -/
theorem toDocument_stable_iff_source :
    let edges : List Edge := [
      { id := "a", wire := ⟨"1", none, "3", some "any"⟩ },
      { id := "b", wire := ⟨"start", some "", "2", some "_"⟩, animated := true }]
    Session.sampleCatalog.Readable ∧
    (∀ n ∈ savedNodes, ∀ p t, n.bindings.get? p = some t → t.Writable) ∧
    ∃ read, ofDocument Session.sampleCatalog .standard (toDocument savedNodes edges) =
        .ok (savedNodes, read) ∧
      toDocument savedNodes read = toDocument savedNodes edges := by
  intro edges
  have hreadable : Session.sampleCatalog.Readable := by decide +kernel
  obtain ⟨read, hread, -, hstable, -⟩ := toDocument_stable_iff Session.sampleCatalog hreadable
    Palette.standardColors savedNodes writable_savedNodes edges
  exact ⟨hreadable, writable_savedNodes, read, hread, hstable.mpr (by decide)⟩

/-- A data wire without a handle at its target is a route when it is saved again. -/
theorem toDocument_unstable :
    let edge : Edge := { id := "a", wire := ⟨"1", some "value", "3", none⟩ }
    Session.sampleCatalog.Readable ∧
    (∀ n ∈ savedNodes, ∀ p t, n.bindings.get? p = some t → t.Writable) ∧
    (toDocument savedNodes [edge]).lookup? "edges" = .ok (some (.list [dataEdge edge])) ∧
    (toDocument savedNodes [edge]).lookup? "route_edges" = .ok (some (.list [])) ∧
    ∃ read, ofDocument Session.sampleCatalog .standard (toDocument savedNodes [edge]) =
        .ok (savedNodes, read) ∧
      (toDocument savedNodes read).lookup? "edges" = .ok (some (.list [])) ∧
      (toDocument savedNodes read).lookup? "route_edges" =
        .ok (some (.list [routeEdge edge])) ∧
      toDocument savedNodes read ≠ toDocument savedNodes [edge] := by
  intro edge
  have hreadable : Session.sampleCatalog.Readable := by decide +kernel
  obtain ⟨stroke, hread⟩ := exists_readBack hreadable Palette.standardColors writable_savedNodes
    [edge]
  refine ⟨hreadable, writable_savedNodes, rfl, rfl, _, hread, ?_⟩
  rw [toDocument_readBack]
  refine ⟨rfl, rfl, fun h => ?_⟩
  have haimed := (resaved_eq_iff savedNodes [edge]).mp h edge List.mem_cons_self
  cases haimed

end Flow
end Patchbay
