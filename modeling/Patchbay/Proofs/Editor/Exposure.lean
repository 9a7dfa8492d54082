import Patchbay.Proofs.Editor.Structure
import Patchbay.Proofs.Graph.View

/-!
Edges and the handles that nodes show.  A port is shown for as long as its node is there, so an edge
at a port always ends at a handle that is listed.  A trigger comes and goes with the mode of its
node.  When a node leaves the triggered mode the edges at its trigger go, and that is enough,
provided that none was connected there while the trigger was hidden.

Deciding on a wire does not ask for that: a wire may name the trigger of any node, and
`run_exposes_hidden` has an edge at a trigger that is not shown.  So triggers are among the listed
handles after those runs that never ask for such a wire (`run_exposes`).
-/

namespace Patchbay

/-! ### Names that are shown -/

/-- A node shows its trigger, depending on its mode, and it shows its ports. -/
def Node.Shows (t : NodeType) (n : Node) (side : Side) (name : String) : Prop :=
  if name = triggerHandle then HandleView.showsTrigger t n side = true
  else ∃ p ∈ t.ports side, p.name = name

theorem Node.shows_trigger {t : NodeType} {n : Node} {side : Side} :
    n.Shows t side triggerHandle ↔ HandleView.showsTrigger t n side = true := by
  rw [Shows, if_pos rfl]

theorem Node.shows_port {t : NodeType} {n : Node} {side : Side} {name : String}
    (hname : name ≠ triggerHandle) : n.Shows t side name ↔ ∃ p ∈ t.ports side, p.name = name := by
  rw [Shows, if_neg hname]

/-- A node of the same type and mode shows the same. -/
def Node.SameLook (n n' : Node) : Prop := n.SameType n' ∧ n'.mode = n.mode

theorem Node.SameLook.refl (n : Node) : n.SameLook n := ⟨rfl, rfl⟩

/-! ### Lists of handles -/

namespace HandleView

variable {colors : Table Rgb} {unresolved : Rgb} {t : NodeType} {n : Node} {side : Side}

/-- What is shown is listed, unless the list fails at a port whose type cannot be read. -/
theorem exists_view_of_shows {name : String} (h : n.Shows t side name) :
    (∃ views, list ⟨.ofColors colors, unresolved⟩ t n side = .ok views ∧
      ∃ v ∈ views, v.id = name) ∨
    ∃ p ∈ t.ports side, ∃ f, TypeTree.parse (expression p) = .error f ∧
      list ⟨.ofColors colors, unresolved⟩ t n side = .error (.expression f) := by
  unfold list
  cases hviews : (t.ports side).mapM (ofPort ⟨.ofColors colors, unresolved⟩ t n side) with
  | error e =>
    obtain ⟨p, hp, he⟩ := exists_error_of_mapM hviews
    obtain ⟨f, hf, rfl⟩ := unreadable_of_ofPort he
    exact .inr ⟨p, hp, f, hf, rfl⟩
  | ok views =>
    refine .inl ⟨_, rfl, ?_⟩
    by_cases hname : name = triggerHandle
    · subst hname
      rw [if_pos (Node.shows_trigger.mp h)]
      exact ⟨trigger, List.mem_cons_self, rfl⟩
    · obtain ⟨p, hp, rfl⟩ := (Node.shows_port hname).mp h
      obtain ⟨v, hmem, hv⟩ := exists_ok_of_mapM hviews hp
      refine ⟨v, ?_, id_of_ofPort hv⟩
      split
      · exact List.mem_cons_of_mem _ hmem
      · exact hmem

end HandleView

namespace Editor

/-- The handles at an end of a wire can be listed, and that of the wire is one of them. -/
def Exposes (ed : Editor) (w : Wire) (side : Side) : Prop :=
  ∃ views, ed.handles (w.node side) side = .ok views ∧ ∃ v ∈ views, w.handle side = some v.id

/-- The handles of a node cannot be listed, since some port there has a type that cannot be read. -/
def Unreadable (ed : Editor) (id : String) (side : Side) : Prop :=
  ∃ n t, ed.graph.nodes.get? id = some n ∧ ed.catalog.get? n.nodeType = some t ∧
    ∃ p ∈ t.ports side, ∃ f, TypeTree.parse (HandleView.expression p) = .error f ∧
      ed.handles id side = .error (.expression f)

def showsTrigger (ed : Editor) (id : String) (side : Side) : Bool :=
  (ed.graph.nodes.get? id).any fun n =>
    (ed.catalog.get? n.nodeType).any fun t => HandleView.showsTrigger t n side

/-- Where a wire names a trigger, it is shown. -/
def NamesShown (ed : Editor) (w : Wire) : Prop :=
  ∀ side, w.handle side = some triggerHandle → ed.showsTrigger (w.node side) side = true

instance (ed : Editor) (w : Wire) : Decidable (ed.NamesShown w) :=
  decidable_of_iff
    ((w.handle .output = some triggerHandle → ed.showsTrigger (w.node .output) .output = true) ∧
      (w.handle .input = some triggerHandle → ed.showsTrigger (w.node .input) .input = true))
    ⟨fun h side => by cases side; exacts [h.1, h.2], fun h => ⟨h .output, h .input⟩⟩

end Editor

/-! ### Ends of wires -/

namespace Wire

variable {catalog : Catalog} {nodes nodes' : Nodes} {w : Wire} {side : Side}

/-- The node at an end of a wire shows the handle that the wire names. -/
def Shown (catalog : Catalog) (nodes : Nodes) (w : Wire) (side : Side) : Prop :=
  ∃ n t name, nodes.get? (w.node side) = some n ∧ catalog.get? n.nodeType = some t ∧
    w.handle side = some name ∧ n.Shows t side name

theorem shown_of_inspect {h : Handle} (hh : w.inspect catalog nodes side = .ok (some h))
    (htrigger : w.handle side = some triggerHandle → ∀ n t,
      nodes.get? (w.node side) = some n → catalog.get? n.nodeType = some t →
      HandleView.showsTrigger t n side = true) : w.Shown catalog nodes side := by
  obtain ⟨name, n, t, hname, -, hn, ht, hof⟩ := Handle.inspect_eq_some_iff.mp hh
  refine ⟨n, t, name, hn, ht, hname, ?_⟩
  by_cases hcase : name = triggerHandle
  · subst hcase
    exact Node.shows_trigger.mpr (htrigger hname n t hn ht)
  · have hport : ∃ p, t.port? name side = some p := by
      rcases Handle.ofNode_eq_some_iff.mp hof with ⟨htrig, -⟩ | ⟨-, p, hp, -⟩ | ⟨-, p, d, hp, -⟩
      · exact absurd htrig hcase
      · exact ⟨p, hp⟩
      · exact ⟨p, hp⟩
    obtain ⟨p, hp⟩ := hport
    refine (Node.shows_port hcase).mpr ⟨p, List.mem_of_find?_eq_some hp, ?_⟩
    simpa using List.find?_some hp

/-- What is shown stays so on a node of the same type, if the mode is kept where the trigger is
concerned. -/
theorem Shown.keep (h : w.Shown catalog nodes side)
    (hkeep : nodes.Keep (fun n n' => n.SameType n' ∧
      (w.handle side = some triggerHandle → n.mode = .triggered → n'.mode = .triggered))
      nodes' (w.node side)) : w.Shown catalog nodes' side := by
  obtain ⟨n, t, name, hn, ht, hname, hshows⟩ := h
  obtain ⟨n', hn', htype, hmode⟩ := hkeep n hn
  refine ⟨n', t, name, hn', by rw [htype, ht], hname, ?_⟩
  by_cases hcase : name = triggerHandle
  · subst hcase
    rw [Node.shows_trigger] at hshows ⊢
    simp only [HandleView.showsTrigger, Bool.and_eq_true, beq_iff_eq] at hshows ⊢
    exact ⟨hmode hname hshows.1, hshows.2⟩
  · rw [Node.shows_port hcase] at hshows ⊢
    exact hshows

theorem Shown.exposes {ed : Editor} (h : w.Shown ed.catalog ed.graph.nodes side) :
    ed.Exposes w side ∨ ed.Unreadable (w.node side) side := by
  obtain ⟨n, t, name, hn, ht, hname, hshows⟩ := h
  have hhandles : ed.handles (w.node side) side =
      HandleView.list ⟨.ofColors ed.settings.palette, ed.settings.unresolved⟩ t n side := by
    simp only [Editor.handles, Editor.node, hn, ok_bind, ht]
    rfl
  rcases HandleView.exists_view_of_shows hshows with ⟨views, hviews, v, hv, hid⟩ |
    ⟨p, hp, f, hf, hlist⟩
  · exact .inl ⟨views, hhandles.trans hviews, v, hv, by rw [hname, hid]⟩
  · exact .inr ⟨n, t, hn, ht, p, hp, f, hf, hhandles.trans hlist⟩

end Wire

/-! ### The invariant -/

namespace Graph

/-- Both ends of every edge are at handles that are shown. -/
def Exposed (catalog : Catalog) (g : Graph) : Prop :=
  ∀ e ∈ g.edges, ∀ side, e.wire.Shown catalog g.nodes side

variable {catalog : Catalog} {g : Graph}

theorem Exposed.withNodes (h : Exposed catalog g) {nodes : Nodes}
    (hkeep : ∀ e ∈ g.edges, ∀ side, g.nodes.Keep Node.SameLook nodes (e.wire.node side)) :
    Exposed catalog ⟨nodes, g.edges⟩ := by
  intro e he side
  refine (h e he side).keep ((hkeep e he side).mono fun hlook => ⟨hlook.1, fun _ hmode => ?_⟩)
  rw [hlook.2, hmode]

theorem Exposed.filterEdges (h : Exposed catalog g) (p : Edge → Bool) :
    Exposed catalog ⟨g.nodes, g.edges.filter p⟩ :=
  fun e he => h e (List.mem_filter.mp he).1

theorem Exposed.replaceNode (h : Exposed catalog g) {id : String} {n n' : Node}
    (hn : g.nodes.get? id = some n) (hlook : n.SameLook n') :
    Exposed catalog ⟨g.nodes.insert id n', g.edges⟩ :=
  h.withNodes fun _ _ _ => Nodes.keep_insert Node.SameLook.refl hn hlook _

theorem Exposed.deleteNode (h : Exposed catalog g) (id : String) :
    Exposed catalog ⟨g.nodes.erase id, g.edges.filter fun e => !e.meets id⟩ := by
  refine (h.filterEdges fun e => !e.meets id).withNodes fun e he side => ?_
  have hne := Edge.ends_ne_of_not_meets (List.mem_filter.mp he).2
  refine Nodes.keep_erase Node.SameLook.refl ?_
  cases side with
  | output => exact hne.1
  | input => exact hne.2

/-- An edge that is kept in a mode other than the triggered one is not at the trigger. -/
theorem triggered_of_kept {edges : List Edge} {n : Node} {id : String} {mode : Mode} {e : Edge}
    {side : Side} (he : e ∈ Editor.keptInMode edges n id mode) (hnode : e.wire.node side = id)
    (hhandle : e.wire.handle side = some triggerHandle) (hmode : n.mode = .triggered) :
    mode = .triggered := by
  by_contra hleaves
  rw [Editor.keptInMode, if_pos ⟨hmode, hleaves⟩] at he
  have hnot := (List.mem_filter.mp he).2
  cases side with
  | output =>
    have hleaves : e.leaves id (some triggerHandle) = true := by
      simp [Edge.leaves, ← hnode, ← hhandle, Wire.node, Wire.handle]
    simp [Edge.touches, hleaves] at hnot
  | input =>
    have henters : e.enters id (some triggerHandle) = true := by
      simp [Edge.enters, ← hnode, ← hhandle, Wire.node, Wire.handle]
    simp [Edge.touches, henters] at hnot

theorem Exposed.setMode (h : Exposed catalog g) {id : String} {n : Node} {mode : Mode}
    (hn : g.nodes.get? id = some n) :
    Exposed catalog ⟨g.nodes.insert id { n with mode }, Editor.keptInMode g.edges n id mode⟩ := by
  intro e he side
  have hwas : e.wire.Shown catalog g.nodes side := by
    unfold Editor.keptInMode at he
    split at he
    · exact h e (List.mem_filter.mp he).1 side
    · exact h e he side
  refine hwas.keep ?_
  by_cases hnode : e.wire.node side = id
  · intro m hm
    rw [hnode, hn, Option.some.injEq] at hm
    subst hm
    refine ⟨{ n with mode }, ?_, rfl, triggered_of_kept he hnode⟩
    rw [hnode]
    exact Table.get?_insert_self _ _ _
  · exact Nodes.keep_insert_of_ne (fun m => ⟨rfl, fun _ hmode => hmode⟩) _ hnode

theorem Exposed.connect {ed : Editor} (h : Exposed ed.catalog ed.graph) {wire : Wire} {edge : Edge}
    {rebinding : Option Rebinding} {evicted : List String}
    (hd : ed.decide ed.settings.theme wire = .ok (.accepted edge rebinding evicted))
    (hshown : ed.NamesShown wire) :
    Exposed ed.catalog
      ⟨(Decision.accepted edge rebinding evicted).nodesAfter ed.graph.nodes,
        Editor.keptBy ed.graph.edges edge evicted ++ [edge]⟩ := by
  -- The new edge is judged on the old nodes; the bindings that come with it are of no consequence.
  suffices hadded : Exposed ed.catalog
      ⟨ed.graph.nodes, Editor.keptBy ed.graph.edges edge evicted ++ [edge]⟩ from
    hadded.withNodes fun e _ side => Decision.keep_nodesAfter (fun _ _ => ⟨rfl, rfl⟩) _ _ _
  intro e he side
  rcases List.mem_append.mp he with he | he
  · exact h e (List.mem_filter.mp he).1 side
  · rw [List.mem_singleton.mp he, Decision.wire_of_accepted hd]
    obtain ⟨x, hx⟩ := Decision.exists_inspect_of_accepted hd side
    refine Wire.shown_of_inspect hx fun hhandle n t hn ht => ?_
    have htrigger := hshown side hhandle
    simpa [Editor.showsTrigger, hn, ht] using htrigger

theorem exposed_step {ed ed' : Editor} (hcatalog : ed.catalog = catalog)
    (h : Exposed catalog ed.graph) (hstep : ed.Step Editor.NamesShown ed') :
    Exposed catalog ed'.graph := by
  subst hcatalog
  cases hstep with
  | stay => exact h
  | place later named fresh bare =>
    exact h.withNodes fun _ _ _ => Nodes.keep_insert_fresh Node.SameLook.refl _ fresh _
  | delete notStart => exact h.deleteNode _
  | setInputs found => exact h.replaceNode found ⟨rfl, rfl⟩
  | setMode found start => exact h.setMode found
  | unbind found => exact (h.filterEdges _).replaceNode found ⟨rfl, rfl⟩
  | connect decided shown => exact h.connect decided shown
  | removeEdges => exact h.filterEdges _
  | reset => exact fun e he => by cases he

end Graph

/-! ### Runs -/

namespace Session

/-- After every run the edges at ports hang on listed handles.  So do the edges at triggers, if no
wire was asked for that names a hidden one, and then they are at triggered nodes alone. -/
theorem run_exposes (catalog : Catalog) (settings : Settings) (actions : List Action)
    (hguarded : ∀ a ∈ actions, a.guarded = true) :
    let ed := ((start catalog settings).run actions).editor
    (∀ e ∈ ed.graph.edges, ∀ side, e.wire.handle side ≠ some triggerHandle →
      ed.Exposes e.wire side ∨ ed.Unreadable (e.wire.node side) side) ∧
    ((start catalog settings).Connects Editor.NamesShown actions →
      ∀ e ∈ ed.graph.edges, ∀ side,
        (ed.Exposes e.wire side ∨ ed.Unreadable (e.wire.node side) side) ∧
        (e.wire.handle side = some triggerHandle → ∀ n,
          ed.graph.nodes.get? (e.wire.node side) = some n → n.mode = .triggered)) := by
  intro ed
  have hruled := keeps_run Graph.ruled_step actions hguarded
    (connects_of_forall (fun _ _ => trivial) _ _) (keeps_start (Graph.ruled_start catalog settings))
  have hcatalog : ed.catalog = catalog := hruled.catalog_eq
  refine ⟨fun e he side hhandle => ?_, fun hconnects e he side => ?_⟩
  · obtain ⟨x, hx⟩ : ∃ x, e.wire.inspect catalog ed.graph.nodes side = .ok (some x) := by
      obtain ⟨s, t, hs, ht, -⟩ := hruled.present.joins e he
      cases side with
      | output => exact ⟨s, hs⟩
      | input => exact ⟨t, ht⟩
    rw [← hcatalog] at hx
    exact (Wire.shown_of_inspect hx fun htrigger => absurd htrigger hhandle).exposes
  · have hexposed := keeps_run (fun hcatalog _ => Graph.exposed_step hcatalog) actions hguarded
      hconnects (keeps_start fun e he => by cases he)
    have hshown : e.wire.Shown catalog ed.graph.nodes side := hexposed.present e he side
    rw [← hcatalog] at hshown
    refine ⟨hshown.exposes, fun hhandle n hn => ?_⟩
    obtain ⟨m, t, name, hm, -, hname, hshows⟩ := hshown
    obtain rfl : m = n := Option.some.inj (hm.symm.trans hn)
    obtain rfl : name = triggerHandle := Option.some.inj (hname.symm.trans hhandle)
    rw [Node.shows_trigger] at hshows
    simp only [HandleView.showsTrigger, Bool.and_eq_true, beq_iff_eq] at hshows
    exact hshows.1

/-! A node leaves the triggered mode, loses its route, comes back and gets a new one. -/

def modeRun : List Action := [
  .add "Number" .zero, .add "Show" .zero,
  .connect ⟨"start", some "_", "2", some "_"⟩, .connect ⟨"1", some "value", "2", some "any"⟩,
  .setMode "2" (.str "DATA"), .setMode "2" (.str "TRIGGERED"),
  .connect ⟨"start", some "_", "2", some "_"⟩, .setMode "1" (.str "DATA_ONCE")]

theorem run_exposes_modes :
    (∀ a ∈ modeRun, a.guarded = true) ∧
    (start sampleCatalog .standard).Connects Editor.NamesShown modeRun ∧
    let ed := ((start sampleCatalog .standard).run modeRun).editor
    ed.graph.edges.map Edge.id = ["edge-1:value->2:any", "edge-start:_->2:_"] ∧
    ∀ e ∈ ed.graph.edges, ∀ side,
      (ed.Exposes e.wire side ∨ ed.Unreadable (e.wire.node side) side) ∧
      (e.wire.handle side = some triggerHandle → ∀ n,
        ed.graph.nodes.get? (e.wire.node side) = some n → n.mode = .triggered) := by
  have hguarded : ∀ a ∈ modeRun, a.guarded = true := by decide
  have hconnects : (start sampleCatalog .standard).Connects Editor.NamesShown modeRun := by
    decide +kernel
  exact ⟨hguarded, hconnects, by decide +kernel,
    (run_exposes sampleCatalog .standard modeRun hguarded).2 hconnects⟩

/-- A route is accepted at the trigger of a node that has left the triggered mode, provided that the
catalog knows the start node. -/
theorem run_exposes_hidden :
    let ed := ((start sampleCatalog .standard).run [.add "Number" .zero,
      .setMode "1" (.str "DATA"), .connect ⟨"start", some "_", "1", some "_"⟩]).editor
    ed.graph.edges.map Edge.id = ["edge-start:_->1:_"] ∧
    (ed.handles "1" .input).toOption.map (·.map HandleView.id) = some [] ∧
    (ed.graph.nodes.get? "1").map Node.mode = some .data := by
  decide +kernel

end Session
end Patchbay
