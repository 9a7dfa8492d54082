import Patchbay.Proofs.Editor.Audit

/-!
Connecting a wire twice.  A wire that was accepted is accepted again with nothing left to bind,
provided that it is `Steady`: each end with free parameters takes in the type of the other end.
Three things can go wrong where this fails, and `reconnect_unsteady` has a graph for each.  A free
parameter with arguments loses them when it is bound; a bound type may mention a parameter that is
bound only now; and the other end may mention a name that is a parameter here.

In a first-order, well-scoped catalog no wire can be otherwise (`Session.run_steady`).
-/

namespace Patchbay

namespace Wire

variable {catalog : Catalog} {nodes nodes' : Nodes} {w : Wire}

/-- The ends of a wire take in each other's types. -/
def Steady (catalog : Catalog) (nodes : Nodes) (w : Wire) : Prop :=
  ∀ side n t d c, Handle.PortOf catalog nodes (w.node side) (w.handle side) side n t d →
    w.inspect catalog nodes side.opposite = .ok (some (.data c [])) → Handle.Absorbs t n d c

theorem steady_of_ground (hfirst : catalog.FirstOrder) (hscoped : catalog.WellScoped)
    (hnodes : nodes.Ground catalog) : w.Steady catalog nodes := by
  intro side n t d c hport hother
  obtain ⟨m, u, e, hport', rfl, hfree⟩ := Handle.exists_port hother
  have hground := hport'.ground hscoped (hnodes _ m hport'.node) hfree
  exact hport.absorbs hfirst (hnodes _ n hport.node) hground

/-- The ends are on two nodes if only one of them has free parameters. -/
theorem node_opposite_ne {side : Side} {type other : TypeTree} {free : List String}
    (here : w.inspect catalog nodes side = .ok (some (.data type free))) (isFree : free ≠ [])
    (there : w.inspect catalog nodes side.opposite = .ok (some (.data other []))) :
    w.node side.opposite ≠ w.node side := by
  obtain ⟨n, t, d, hport, -, rfl⟩ := Handle.exists_port here
  obtain ⟨m, u, e, hport', -, hnone⟩ := Handle.exists_port there
  intro hnode
  have hn : some m = some n := by rw [← hport'.node, hnode, hport.node]
  injection hn with hn
  subst hn
  have ht : some u = some t := by rw [← hport'.nodeType, hport.nodeType]
  injection ht with ht
  exact isFree (ht ▸ hnone)

/-- A steady wire that fits goes on to fit, and the source end stays what it is unless new bindings
were made on its node. -/
theorem Fits.again {edge : Edge} {rebinding : Option Rebinding} {evicted : List String}
    (h : w.Fits catalog nodes rebinding) (hsteady : w.Steady catalog nodes)
    (hafter : (Decision.accepted edge rebinding evicted).nodesAfter nodes = nodes') :
    (∃ rebinding', w.Fits catalog nodes' rebinding' ∧
      ∀ edge evicted, (Decision.accepted edge rebinding' evicted).nodesAfter nodes' = nodes') ∧
    ((∀ r, rebinding = some r → r.node ≠ w.source) →
      w.inspect catalog nodes' .output = w.inspect catalog nodes .output) := by
  cases h with
  | control ends =>
    cases hafter
    exact ⟨⟨none, .control ends, fun _ _ => rfl⟩, fun _ => rfl⟩
  | settled type ends agrees =>
    cases hafter
    exact ⟨⟨none, .settled type ends agrees, fun _ _ => rfl⟩, fun _ => rfl⟩
  | @resolved side _ other _ b here isFree there found =>
    have hne := node_opposite_ne here isFree there
    obtain ⟨n, t, d, hport, rfl, rfl⟩ := Handle.exists_port here
    have habsorbs := hsteady side n t d other hport there
    rw [Decision.nodesAfter_rebindingOf hport.node] at hafter
    subst hafter
    have hthere := there
    rw [← inspect_insert_of_ne hne { n with bindings := b.union n.bindings }] at hthere
    refine ⟨Decision.exists_fits_of_same side (hport.inspect_resolved habsorbs found) hthere
      (habsorbs.not_mem_freeParams found), fun hsource => ?_⟩
    cases side with
    | output => exact absurd rfl (hsource _ rfl)
    | input => exact inspect_insert_of_ne hne _

end Wire

namespace Editor

variable {ed : Editor} {wire : Wire} {edge : Edge} {rebinding : Option Rebinding}
  {evicted : List String}

theorem exists_connect
    (hd : ed.decide ed.settings.theme wire = .ok (.accepted edge rebinding evicted)) :
    ∃ c, ed.connect wire = .ok c ∧
      c.editor = (ed.withNodes
        ((Decision.accepted edge rebinding evicted).nodesAfter ed.graph.nodes)).withEdges
        (keptBy ed.graph.edges edge evicted ++ [edge]) := by
  obtain ⟨c, hc, -, hed⟩ := exists_connect_of_decide hd
  exact ⟨c, hc, hed⟩

/-- Of the edges that were kept for a wire none is evicted by it. -/
theorem keptBy_again {edges kept : List Edge} (kind : HandleKind) {edge' : Edge}
    (hid : edge'.id = edge.id)
    (h : keptBy edges edge (Decision.evictedBy wire kind edges) = kept) :
    keptBy (kept ++ [edge]) edge' (Decision.evictedBy wire kind (kept ++ [edge])) = kept := by
  obtain ⟨p, hp⟩ : ∃ p : Edge → Bool, ∀ es,
      Decision.evictedBy wire kind es = (es.filter p).map Edge.id := by
    cases kind with
    | control => exact ⟨_, fun _ => rfl⟩
    | data => exact ⟨_, fun _ => rfl⟩
  have hkept : ∀ e ∈ kept, e ∈ edges ∧ e.id ∉ Decision.evictedBy wire kind edges ∧
      e.id ≠ edge.id := by
    intro e he
    rw [← h] at he
    have hcond := List.mem_filter.mp he
    simpa using hcond
  have hevicted : ∀ i ∈ Decision.evictedBy wire kind (kept ++ [edge]), i = edge.id := by
    intro i hi
    rw [hp] at hi
    obtain ⟨f, hf, rfl⟩ := List.mem_map.mp hi
    obtain ⟨hf, hpf⟩ := List.mem_filter.mp hf
    rcases List.mem_append.mp hf with hf | hf
    · have hmem : f.id ∈ Decision.evictedBy wire kind edges := by
        rw [hp]
        exact List.mem_map_of_mem (List.mem_filter.mpr ⟨(hkept f hf).1, hpf⟩)
      exact absurd hmem (hkept f hf).2.1
    · rw [List.mem_singleton.mp hf]
  have hself : kept.filter (fun e => !(Decision.evictedBy wire kind (kept ++ [edge])).contains e.id
      && e.id != edge'.id) = kept := by
    rw [List.filter_eq_self]
    intro e he
    have hnot : e.id ∉ Decision.evictedBy wire kind (kept ++ [edge]) :=
      fun hi => (hkept e he).2.2 (hevicted e.id hi)
    simp [hnot, hid, (hkept e he).2.2]
  rw [keptBy, List.filter_append, hself]
  simp [hid]

/-- A second decision on a wire, after the first was installed, is on an edge that differs by the
stroke alone, and edges are evicted for it by the same rule. -/
theorem edge_again {theme : Theme} {catalog : Catalog} {nodes : Nodes} {edges edges' : List Edge}
    {edge' : Edge} {rebinding' : Option Rebinding} {evicted' : List String}
    (hd : Decision.make theme catalog nodes edges wire = .ok (.accepted edge rebinding evicted))
    (hd' : Decision.make theme catalog ((Decision.accepted edge rebinding evicted).nodesAfter nodes)
      edges' wire = .ok (.accepted edge' rebinding' evicted')) :
    edge' = { edge with stroke := edge'.stroke } ∧
    (∃ kind, Decision.evictedBy wire kind edges = evicted ∧
      Decision.evictedBy wire kind edges' = evicted') ∧
    (wire.inspect catalog ((Decision.accepted edge rebinding evicted).nodesAfter nodes) .output =
      wire.inspect catalog nodes .output → edge'.stroke = edge.stroke) := by
  have hkeep := Decision.keep_nodesAfter (R := Node.SameType) (fun _ _ => rfl)
    (.accepted edge rebinding evicted) nodes wire.source
  obtain ⟨s, t, css, hs, -, -, hcss, rfl, hevicted⟩ := Decision.make_eq_accepted_iff.mp hd
  obtain ⟨s', t', css', hs', -, -, hcss', rfl, hevicted'⟩ := Decision.make_eq_accepted_iff.mp hd'
  have hkind : s'.kind = s.kind := by
    obtain ⟨h, hh, hkind⟩ := Handle.exists_inspect_of_keep hkeep hs
    rw [hh, Except.ok.injEq, Option.some.injEq] at hs'
    rw [← hs', hkind]
  refine ⟨by rw [hkind], ⟨s.kind, hevicted, hkind ▸ hevicted'⟩, fun hsame => ?_⟩
  have hss : (.ok (some s') : Except TypeTree.SyntaxFault (Option Handle)) = .ok (some s) :=
    (hs'.symm.trans hsame).trans hs
  injection hss with hss
  injection hss with hss
  rw [hss, hcss, Except.ok.injEq] at hcss'
  exact hcss'.symm

/-- A steady wire that was accepted once is accepted ever after, with nothing left to bind.
Connected twice it gives the graph that it gave at first, but for the stroke of an edge whose source
was resolved: it was drawn before its type was known. -/
theorem reconnect_of_steady (ed : Editor) (wire : Wire) {edge : Edge}
    {rebinding : Option Rebinding} {evicted : List String}
    (hd : ed.decide ed.settings.theme wire = .ok (.accepted edge rebinding evicted))
    (hsteady : wire.Steady ed.catalog ed.graph.nodes) :
    let nodes := (Decision.accepted edge rebinding evicted).nodesAfter ed.graph.nodes
    (∀ colors unresolved edges, ∃ edge' rebinding' evicted',
      Decision.make ⟨.ofColors colors, unresolved⟩ ed.catalog nodes edges wire =
        .ok (.accepted edge' rebinding' evicted') ∧
      (Decision.accepted edge' rebinding' evicted').nodesAfter nodes = nodes) ∧
    ∃ once twice kept stroke, ed.connect wire = .ok once ∧ once.editor.connect wire = .ok twice ∧
      once.editor = { ed with graph := ⟨nodes, kept ++ [edge]⟩ } ∧
      twice.editor = { ed with graph := ⟨nodes, kept ++ [{ edge with stroke }]⟩ } ∧
      ((∀ r, rebinding = some r → r.node ≠ wire.source) → stroke = edge.stroke) := by
  intro nodes
  obtain ⟨⟨rebinding', hfits, hsame⟩, hsource⟩ :=
    (Decision.fits_of_accepted hd).again hsteady (rfl : _ = nodes)
  have hagain := Decision.exists_accepted_of_fits hfits
  refine ⟨fun colors unresolved edges => ?_, ?_⟩
  · obtain ⟨edge', evicted', hmake⟩ := hagain colors unresolved edges
    exact ⟨edge', rebinding', evicted', hmake, hsame edge' evicted'⟩
  · let kept := keptBy ed.graph.edges edge evicted
    obtain ⟨once, honce, heditor⟩ := exists_connect hd
    obtain ⟨edge', evicted', hmake⟩ :=
      hagain ed.settings.palette ed.settings.unresolved (kept ++ [edge])
    obtain ⟨hedge, ⟨kind, hevicted, hevicted'⟩, hstroke⟩ := edge_again hd hmake
    have hd' : once.editor.decide once.editor.settings.theme wire =
        .ok (.accepted edge' rebinding' evicted') := by
      rw [heditor]
      exact hmake
    obtain ⟨twice, htwice, heditor'⟩ := exists_connect hd'
    have hkept : keptBy (kept ++ [edge]) edge' evicted' = kept := by
      have hid : edge'.id = edge.id := by rw [hedge]
      rw [← hevicted']
      exact keptBy_again kind hid (by rw [hevicted])
    refine ⟨once, twice, kept, edge'.stroke, honce, htwice, heditor, ?_, fun hr =>
      hstroke (hsource hr)⟩
    rw [heditor', heditor, ← hedge]
    simp only [withNodes, withEdges]
    rw [hkept, hsame]

end Editor

namespace Session

theorem run_steady {catalog : Catalog} (hfirst : catalog.FirstOrder) (hscoped : catalog.WellScoped)
    (settings : Settings) (actions : List Action) (hguarded : ∀ a ∈ actions, a.guarded = true)
    (wire : Wire) :
    wire.Steady ((start catalog settings).run actions).editor.catalog
      ((start catalog settings).run actions).editor.graph.nodes := by
  have hkeeps := keeps_typed hfirst hscoped settings actions hguarded
  rw [hkeeps.catalog_eq]
  exact Wire.steady_of_ground hfirst hscoped hkeeps.present.ground

end Session

namespace Editor

/-! A number is put in a box, twice. -/

def boxEditor : Editor :=
  ((Session.start Session.sampleCatalog .standard).run
    [.add "Number" .zero, .add "Box" .zero]).editor

def boxWire : Wire := ⟨"1", some "value", "2", some "item"⟩

theorem reconnect_of_steady_box :
    boxWire.Steady boxEditor.catalog boxEditor.graph.nodes ∧
    ∃ edge rebinding evicted once twice,
      boxEditor.decide boxEditor.settings.theme boxWire =
        .ok (.accepted edge rebinding evicted) ∧
      boxEditor.connect boxWire = .ok once ∧ once.editor.connect boxWire = .ok twice ∧
      twice.editor.graph.nodes = once.editor.graph.nodes := by
  have hsteady : boxWire.Steady boxEditor.catalog boxEditor.graph.nodes := by
    unfold boxEditor
    exact Session.run_steady (by decide +kernel) (by decide +kernel) _ _ (by decide) boxWire
  have haccepted : (boxEditor.decide boxEditor.settings.theme boxWire).toOption.map
      Decision.outcome = some "accepted" := by decide +kernel
  cases hd : boxEditor.decide boxEditor.settings.theme boxWire with
  | error f => simp [hd, Except.toOption] at haccepted
  | ok d =>
    cases d with
    | rejected reason =>
      rw [hd] at haccepted
      cases reason <;> simp [Except.toOption, Decision.outcome, Reason.name] at haccepted
    | accepted edge rebinding evicted =>
      obtain ⟨-, once, twice, kept, stroke, honce, htwice, hed, hed', -⟩ :=
        reconnect_of_steady boxEditor boxWire hd hsteady
      exact ⟨hsteady, edge, rebinding, evicted, once, twice, rfl, honce, htwice, by rw [hed, hed']⟩

/-! Wires that are not steady, and one whose stroke changes. -/

def mixedCatalog : Catalog := Table.ofList [
  ("StartNode", Session.sampleType [] [] []),
  ("Maker", Session.sampleType [("in", "T")] [("made", "C<T>"), ("one", "T")] ["C", "T"]),
  ("Raw", Session.sampleType [] [("raw", "list<C>")] []),
  ("Box", Session.sampleType [] [("box", "list<T>")] ["T"]),
  ("Sum", Session.sampleType [("list", "list<int>"), ("named", "pair<C, int>")] [] [])]

def mixed (actions : List Action) : Editor :=
  ((Session.start mixedCatalog .standard).run actions).editor

def outcomesTwice (actions : List Action) (wire : Wire) : List (Option String) :=
  [actions, actions ++ [.connect wire]].map fun before =>
    ((mixed before).decide .standard wire).toOption.map Decision.outcome

theorem reconnect_unsteady :
    -- `C<T>` becomes `list` when `C` is bound to it.
    outcomesTwice [.add "Maker" .zero, .add "Sum" .zero] ⟨"1", some "made", "2", some "list"⟩ =
      [some "accepted", some "type_mismatch"] ∧
    -- `T` is `list<C>`, and `C` is bound to `int` only now.
    outcomesTwice [.add "Raw" .zero, .add "Maker" .zero, .add "Sum" .zero,
        .connect ⟨"1", some "raw", "2", some "in"⟩] ⟨"2", some "one", "3", some "list"⟩ =
      [some "accepted", some "type_mismatch"] ∧
    -- `T` is bound to `pair<C, int>`, and then `C` to itself.
    (let named : Wire := ⟨"1", some "one", "2", some "named"⟩
    let once := mixed [.add "Maker" .zero, .add "Sum" .zero, .connect named]
    let twice := mixed [.add "Maker" .zero, .add "Sum" .zero, .connect named, .connect named]
    (once.graph.nodes.get? "1").map (·.bindings.keys) = some ["T"] ∧
    (twice.graph.nodes.get? "1").map (·.bindings.keys) = some ["C", "T"]) ∧
    -- The type of the source is known only when the wire is connected again.
    let boxed : Wire := ⟨"1", some "box", "2", some "list"⟩
    let once := mixed [.add "Box" .zero, .add "Sum" .zero, .connect boxed]
    let twice := mixed [.add "Box" .zero, .add "Sum" .zero, .connect boxed, .connect boxed]
    once.graph.edges.map Edge.stroke = [some "rgb(128, 128, 128)"] ∧
    twice.graph.edges.map Edge.stroke = [some "rgb(247, 118, 20)"] := by
  decide +kernel

end Editor
end Patchbay
