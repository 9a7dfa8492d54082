import Patchbay.Proofs.Editor.Origin
import Patchbay.Proofs.Editor.Structure
import Patchbay.Proofs.TypeTree.Document

/-!
The wiring of a graph is told twice: in the document that is saved, and in the request that is sent
off to run.  The document takes for routes the edges that end at a trigger, the request those that
are animated.

Every edge of an editor comes from a decision, now or at some earlier time, for as long as no graph
is loaded (`traced_run`).  Decisions animate the edges between control handles, so an edge that ends
at a trigger is animated.  The other direction fails at inputs of the route type, which are control
handles too: a wire into one is a route in the request and a data wire in the document.  That is the
only way in which the two can differ (`run_wiring`).
-/

namespace Patchbay

/-! ### Where edges come from -/

/-- An edge that was decided on in the catalog, in whatever graph. -/
def Edge.Decided (catalog : Catalog) (e : Edge) : Prop :=
  ∃ theme nodes edges wire rebinding evicted,
    Decision.make theme catalog nodes edges wire = .ok (.accepted e rebinding evicted)

def Decision.Traced (catalog : Catalog) (d : Decision) : Prop :=
  ∀ edge rebinding evicted, d = .accepted edge rebinding evicted → edge.Decided catalog

def Graph.Traced (catalog : Catalog) (g : Graph) : Prop := ∀ e ∈ g.edges, e.Decided catalog

theorem Editor.traced_of_decide {ed : Editor} {theme : Theme} {wire : Wire} {d : Decision}
    (hd : ed.decide theme wire = .ok d) : d.Traced ed.catalog := by
  rintro edge rebinding evicted rfl
  exact ⟨theme, _, _, wire, rebinding, evicted, hd⟩

namespace Session

abbrev Traced (catalog : Catalog) (settings : Settings) : Session → Prop :=
  Holds catalog settings (Graph.Traced catalog) (Decision.Traced catalog)

theorem lasting_traced (catalog : Catalog) (settings : Settings) :
    Lasting catalog settings (Graph.Traced catalog) (Decision.Traced catalog) where
  step := by
    rintro ed ed' rfl - hed hstep e he
    rcases hstep.mem_edges he with he | ⟨wire, rebinding, evicted, hd⟩
    · exact hed e he
    · exact Editor.traced_of_decide hd e rebinding evicted rfl
  decide := by
    rintro ed theme wire d rfl - hd
    exact Editor.traced_of_decide hd
  install := by
    intro ed d hed hd e he
    rcases Editor.mem_edges_install he with he | ⟨rebinding, evicted, rfl⟩
    · exact hed e he
    · exact hd e rebinding evicted rfl

variable {catalog : Catalog} {settings : Settings} {s : Session}

theorem traced_run (hs : s.Traced catalog settings) (actions : List Action)
    (hloads : ∀ a ∈ actions, a.loads = false) : (s.run actions).Traced catalog settings :=
  holds_run (lasting_traced catalog settings) hs actions hloads

theorem traced_start (catalog : Catalog) (settings : Settings) :
    (start catalog settings).Traced catalog settings :=
  holds_start fun e he => by cases he

end Session

/-! ### Edges that are decided on -/

/-- Some node type has an input of the route type under the name. -/
def Catalog.TakesRoute (catalog : Catalog) (name : String) : Prop :=
  ∃ key t p, catalog.get? key = some t ∧ p ∈ t.inputs ∧ p.isRoute = true ∧ p.name = name ∧
    name ≠ triggerHandle

namespace Edge

variable {catalog : Catalog} {e : Edge}

/-- A control wire that ends at a port. -/
def strays (e : Edge) : Bool := e.animated && !e.isRoute

theorem Decided.animated_of_isRoute (h : e.Decided catalog) (hroute : e.isRoute = true) :
    e.animated = true := by
  obtain ⟨theme, nodes, edges, wire, rebinding, evicted, hd⟩ := h
  obtain ⟨s, t, css, -, ht, hcheck, -, rfl, -⟩ := Decision.make_eq_accepted_iff.mp hd
  have htrigger : wire.targetHandle = some triggerHandle := by simpa [isRoute] using hroute
  obtain ⟨name, n, type, hname, -, -, -, hof⟩ := Handle.inspect_eq_some_iff.mp ht
  obtain rfl : name = triggerHandle := Option.some.inj (hname.symm.trans htrigger)
  obtain rfl : .control = t := by simpa [Handle.ofNode] using hof
  have hkind : s.kind = .control := Decision.kind_eq_of_checkHandles hcheck
  rw [hkind]
  rfl

/-- A wire strays only into an input of the route type. -/
theorem Decided.takesRoute (h : e.Decided catalog) (hstrays : e.strays = true) :
    ∃ name, e.wire.targetHandle = some name ∧ catalog.TakesRoute name := by
  obtain ⟨theme, nodes, edges, wire, rebinding, evicted, hd⟩ := h
  obtain ⟨s, t, css, -, ht, hcheck, -, rfl, -⟩ := Decision.make_eq_accepted_iff.mp hd
  obtain ⟨hcontrol, hport⟩ : s.kind = .control ∧ wire.targetHandle ≠ some triggerHandle := by
    simpa [strays, isRoute] using hstrays
  have hkind := Decision.kind_eq_of_checkHandles hcheck
  obtain ⟨name, n, type, hname, -, -, htype, hof⟩ := Handle.inspect_eq_some_iff.mp ht
  rcases Handle.ofNode_eq_some_iff.mp hof with ⟨rfl, -⟩ | ⟨hne, p, hp, hroute, -⟩ |
    ⟨-, p, d, -, -, -, rfl⟩
  · exact absurd hname hport
  · have hpname : p.name = name := by simpa using List.find?_some hp
    exact ⟨name, hname, n.nodeType, type, p, htype, List.mem_of_find?_eq_some hp, hroute, hpname,
      hne⟩
  · rw [hcontrol] at hkind
    cases hkind

end Edge

/-! ### The two lists -/

namespace Flow

/-- A request and a document tell the same data wires and the same routes. -/
def SameWiring (request document : Value) : Prop :=
  ∀ name ∈ ["edges", "route_edges"], request.lookup? name = document.lookup? name

theorem sameWiring_iff {edges : List Edge} (nodes : List Node)
    (h : ∀ e ∈ edges, e.isRoute = true → e.animated = true) :
    SameWiring (toRequest nodes edges) (toDocument nodes edges) ↔
      ∀ e ∈ edges, e.strays = false := by
  constructor
  · intro hsame e he
    have hlists : (edges.filter Edge.animated).map routeEdge =
        (edges.filter Edge.isRoute).map routeEdge := by
      have hlookup : Except.ok (some (Value.list ((edges.filter Edge.animated).map routeEdge))) =
          (Except.ok (some (Value.list ((edges.filter Edge.isRoute).map routeEdge))) :
            Except Value.Mismatch (Option Value)) := hsame "route_edges" (by simp)
      simpa using hlookup
    -- The routes of the document are among those of the request.  If they are as many, they are
    -- all of them.
    have hamong : edges.filter Edge.isRoute =
        (edges.filter Edge.animated).filter Edge.isRoute := by
      rw [List.filter_filter]
      refine List.filter_congr fun f hf => ?_
      cases hroute : f.isRoute with
      | false => rfl
      | true => simp [h f hf hroute]
    have hlengths := congrArg List.length hlists
    rw [List.length_map, List.length_map, hamong] at hlengths
    have hall := List.length_filter_eq_length_iff.mp hlengths.symm
    cases hanimated : e.animated with
    | false => simp [Edge.strays, hanimated]
    | true => simp [Edge.strays, hall e (List.mem_filter.mpr ⟨he, hanimated⟩)]
  · intro hstray
    have hkind : ∀ e ∈ edges, e.animated = e.isRoute := by
      intro e he
      have hnot := hstray e he
      cases hroute : e.isRoute with
      | true => exact h e he hroute
      | false => simpa [Edge.strays, hroute] using hnot
    have hroutes : edges.filter Edge.animated = edges.filter Edge.isRoute := List.filter_congr hkind
    have hdata : (edges.filter fun e => !e.animated) = edges.filter fun e => !e.isRoute :=
      List.filter_congr fun e he => by rw [hkind e he]
    have hlists : edgeLists Edge.animated edges = edgeLists Edge.isRoute edges := by
      rw [edgeLists, edgeLists, hroutes, hdata]
    intro name hname
    rw [toRequest, toDocument, Value.lookup?_record, Value.lookup?_record, hlists]
    have hne : name ≠ "nodes" := by
      rintro rfl
      simp at hname
    rw [Table.lookup_cons_eq_ite, Table.lookup_cons_eq_ite, if_neg hne, if_neg hne]

end Flow

namespace Session

theorem run_wiring (catalog : Catalog) (settings : Settings) (actions : List Action)
    (hloads : ∀ a ∈ actions, a.loads = false) :
    let g := ((start catalog settings).run actions).editor.graph
    let same := Flow.SameWiring (Flow.toRequest g.nodes.values g.edges)
      (Flow.toDocument g.nodes.values g.edges)
    (∀ e ∈ g.edges, e.isRoute = true → e.animated = true) ∧
    (∀ e ∈ g.edges, e.strays = true →
      ∃ name, e.wire.targetHandle = some name ∧ catalog.TakesRoute name) ∧
    (same ↔ ∀ e ∈ g.edges, e.strays = false) ∧
    ((∀ name, ¬catalog.TakesRoute name) → same) := by
  intro g same
  have hdecided : g.Traced catalog :=
    (traced_run (traced_start catalog settings) actions hloads).keeps.present
  have hroutes : ∀ e ∈ g.edges, e.isRoute = true → e.animated = true :=
    fun e he => (hdecided e he).animated_of_isRoute
  have hsame : same ↔ ∀ e ∈ g.edges, e.strays = false :=
    Flow.sameWiring_iff g.nodes.values hroutes
  refine ⟨hroutes, fun e he => (hdecided e he).takesRoute, hsame, fun hnone => ?_⟩
  refine hsame.mpr fun e he => ?_
  by_contra hstrays
  obtain ⟨name, -, htakes⟩ := (hdecided e he).takesRoute (by simpa using hstrays)
  exact hnone name htakes

/-! A branch whose second route is decided on before a data wire and installed after it, and a gate
with an input of the route type. -/

def routeCatalog : Catalog := Table.ofList [
  ("StartNode", sampleType [] [] []),
  ("Number", sampleType [] [("value", "int")] []),
  ("Branch", sampleType [("if", "*")] [("then", "route"), ("else", "route")] []),
  ("Show", sampleType [("any", "*")] [] []),
  ("Gate", sampleType [("go", "route")] [] [])]

def branchRun : List Action := [
  .add "Number" .zero, .add "Branch" .zero, .add "Show" .zero,
  .connect ⟨"start", some "_", "2", some "_"⟩, .validate ⟨"2", some "else", "3", some "_"⟩ "later",
  .connect ⟨"1", some "value", "2", some "if"⟩, .apply "later"]

theorem run_wiring_branch :
    (∀ a ∈ branchRun, a.loads = false) ∧
    let g := ((start routeCatalog .standard).run branchRun).editor.graph
    g.edges.map (fun e => (e.id, e.animated)) =
      [("edge-start:_->2:_", true), ("edge-1:value->2:if", false), ("edge-2:else->3:_", true)] ∧
    Flow.SameWiring (Flow.toRequest g.nodes.values g.edges)
      (Flow.toDocument g.nodes.values g.edges) := by
  have hloads : ∀ a ∈ branchRun, a.loads = false := by decide
  exact ⟨hloads, by decide +kernel,
    (run_wiring routeCatalog .standard branchRun hloads).2.2.1.mpr (by decide +kernel)⟩

def gateRun : List Action := [.add "Gate" .zero, .connect ⟨"start", some "_", "1", some "go"⟩]

/-- A wire into an input of the route type is a route in the request and none in the document. -/
theorem run_wiring_gate :
    (∀ a ∈ gateRun, a.loads = false) ∧
    let g := ((start routeCatalog .standard).run gateRun).editor.graph
    g.edges.map (fun e => (e.id, e.animated, e.isRoute)) =
      [("edge-start:_->1:go", true, false)] ∧
    ¬Flow.SameWiring (Flow.toRequest g.nodes.values g.edges)
      (Flow.toDocument g.nodes.values g.edges) := by
  have hloads : ∀ a ∈ gateRun, a.loads = false := by decide
  have hdecided := (traced_run (traced_start routeCatalog .standard) gateRun hloads).keeps.present
  refine ⟨hloads, by decide +kernel, fun hsame => ?_⟩
  have hnone := (Flow.sameWiring_iff _ fun e he => (hdecided e he).animated_of_isRoute).mp hsame
  revert hnone
  decide +kernel

end Session
end Patchbay
