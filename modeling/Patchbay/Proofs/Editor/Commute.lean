import Patchbay.Proofs.Editor.Structure

/-!
Wires that share no node.  A decision reads the nodes at the ends of its wire and changes the
bindings of one of them, so two such wires get the same verdicts in either order
(`decide_install`), and the new bindings can be made in either order (`nodesAfter_comm`).

The edges are one list for all, and they go by their ids.  An edge may stand at handles of both
wires, and in a graph that was loaded an id may belong to several edges.  What stays is told by
`Edge.stays`: after two new edges those are left that stay for each of them in the list as it was
(`stays_stays`).  So the order of the wires shows only in the order of the two new edges.
-/

namespace Patchbay

/-! ### The edges after two new ones -/

namespace Edge

variable {edges : List Edge} {new new' e : Edge}

theorem stays_stays :
    (stays edges new e = true ∧ stays (edges.filter (stays edges new)) new' e = true) ↔
      stays edges new e = true ∧ stays edges new' e = true := by
  refine and_congr_right fun hstays => ?_
  obtain ⟨hkept, hid⟩ := stays_iff.mp hstays
  rw [stays_iff, stays_iff]
  refine and_congr_left fun _ => ⟨fun h f hf hdisplaced hsame => ?_, fun h f hf => ?_⟩
  · -- An edge of the same id stays with `e`, so it is there to be displaced.
    have hf' : stays edges new f = true := by
      rw [stays_iff, hsame]
      exact ⟨hkept, hid⟩
    exact h f (List.mem_filter.mpr ⟨hf, hf'⟩) hdisplaced hsame
  · exact h f (List.mem_filter.mp hf).1

theorem filter_stays_concat {kept : List Edge} (hdisplaced : new'.displaces new = false) :
    stays (kept ++ [new]) new' = stays kept new' := by
  funext e
  simp [stays, hdisplaced]

/-- Two new edges that do not take each other's place. -/
theorem rewired_rewired (edges : List Edge) (hdisplaced : new'.displaces new = false)
    (hid : new.id ≠ new'.id) :
    rewired (rewired edges new) new' =
      edges.filter (fun e => stays edges new e && stays edges new' e) ++ [new, new'] := by
  have hnew : stays (edges.filter (stays edges new)) new' new = true := by
    rw [stays_iff]
    refine ⟨fun f hf _ => ?_, hid⟩
    exact (stays_iff.mp (List.mem_filter.mp hf).2).2
  have hold :
      (edges.filter (stays edges new)).filter (stays (edges.filter (stays edges new)) new') =
        edges.filter fun e => stays edges new e && stays edges new' e := by
    rw [List.filter_filter]
    refine List.filter_congr fun e _ => ?_
    rw [Bool.eq_iff_iff, Bool.and_eq_true, Bool.and_eq_true, and_comm]
    exact stays_stays
  rw [rewired, rewired, filter_stays_concat hdisplaced, List.filter_append, hold,
    List.filter_cons_of_pos hnew, List.filter_nil, List.append_assoc]
  rfl

theorem rewired_comm (edges : List Edge) (hdisplaced : new'.displaces new = false)
    (hdisplaced' : new.displaces new' = false) (hid : new.id ≠ new'.id) :
    (rewired (rewired edges new) new').Perm (rewired (rewired edges new') new) := by
  have hkept : edges.filter (fun e => stays edges new e && stays edges new' e) =
      edges.filter fun e => stays edges new' e && stays edges new e :=
    List.filter_congr fun e _ => Bool.and_comm ..
  rw [rewired_rewired edges hdisplaced hid, rewired_rewired edges hdisplaced' (Ne.symm hid), hkept]
  exact (List.Perm.swap new' new []).append_left _

/-- An edge gives way only to one that shares a node with it. -/
theorem displaces_eq_false (h : ∀ side, e.wire.node side ≠ new.wire.node side) :
    new.displaces e = false := by
  have hsource : e.wire.source ≠ new.wire.source := h .output
  have htarget : e.wire.target ≠ new.wire.target := h .input
  unfold displaces leaves enters
  split <;> simp [hsource, htarget]

end Edge

/-! ### Decisions on two wires -/

namespace Decision

variable {theme : Theme} {catalog : Catalog} {nodes : Nodes} {edges : List Edge} {w w' : Wire}
  {d d' : Decision}

theorem get?_nodesAfter_of_ne (hd : make theme catalog nodes edges w = .ok d) {id : String}
    (hid : ∀ side, w.node side ≠ id) : (d.nodesAfter nodes).get? id = nodes.get? id := by
  cases d with
  | rejected reason => rfl
  | accepted edge rebinding evicted =>
    cases rebinding with
    | none => rfl
    | some r =>
      obtain ⟨side, n, hside, hn⟩ := exists_end_of_rebinding hd
      have hne : id ≠ r.node := by
        rw [hside]
        exact Ne.symm (hid side)
      simp only [nodesAfter, rebind, hn, Option.map_some, Option.getD_some]
      exact Table.get?_insert_of_ne nodes hne _

theorem nodesAfter_comm (hapart : ∀ s s', w.node s ≠ w'.node s')
    (hd : make theme catalog nodes edges w = .ok d)
    (hd' : make theme catalog nodes edges w' = .ok d') :
    d'.nodesAfter (d.nodesAfter nodes) = d.nodesAfter (d'.nodesAfter nodes) := by
  cases d with
  | rejected reason => rfl
  | accepted edge rebinding evicted =>
    cases d' with
    | rejected reason => rfl
    | accepted edge' rebinding' evicted' =>
      cases rebinding with
      | none => rfl
      | some r =>
        cases rebinding' with
        | none => rfl
        | some r' =>
          obtain ⟨side, n, hside, hn⟩ := exists_end_of_rebinding hd
          obtain ⟨side', n', hside', hn'⟩ := exists_end_of_rebinding hd'
          have hne : r.node ≠ r'.node := by
            rw [hside, hside']
            exact hapart side side'
          simp only [nodesAfter, rebind, hn, hn', Table.get?_insert_of_ne nodes hne,
            Table.get?_insert_of_ne nodes (Ne.symm hne), Option.map_some, Option.getD_some]
          exact Table.insert_comm hne hn _ _

theorem edgesAfter_comm (hapart : ∀ s s', w.node s ≠ w'.node s') (hids : w.edgeId ≠ w'.edgeId)
    (hd : make theme catalog nodes edges w = .ok d)
    (hd' : make theme catalog nodes edges w' = .ok d') :
    (d'.edgesAfter (d.edgesAfter edges)).Perm (d.edgesAfter (d'.edgesAfter edges)) := by
  cases d with
  | rejected reason => exact .refl _
  | accepted edge rebinding evicted =>
    cases d' with
    | rejected reason => exact .refl _
    | accepted edge' rebinding' evicted' =>
      obtain ⟨_, _, _, -, -, -, -, hedge, -⟩ := make_eq_accepted_iff.mp hd
      obtain ⟨_, _, _, -, -, -, -, hedge', -⟩ := make_eq_accepted_iff.mp hd'
      have hwire : edge.wire = w := wire_of_accepted hd
      have hwire' : edge'.wire = w' := wire_of_accepted hd'
      have hid : edge.id ≠ edge'.id := by
        rw [← hedge, ← hedge']
        exact hids
      refine Edge.rewired_comm edges ?_ ?_ hid
      · refine Edge.displaces_eq_false fun side => ?_
        rw [hwire, hwire']
        exact hapart side side
      · refine Edge.displaces_eq_false fun side => ?_
        rw [hwire, hwire']
        exact Ne.symm (hapart side side)

end Decision

/-! ### Two wires in a row -/

namespace Editor

variable {ed : Editor} {theme : Theme} {w w' : Wire} {d d' : Decision}

/-- A wire is judged as before if another wire was connected that shares no node with it. -/
theorem decide_install (hapart : ∀ s s', w.node s ≠ w'.node s')
    (hd : ed.decide theme w = .ok d) :
    (ed.install d).decide theme w' =
      (ed.decide theme w').map (Decision.among (ed.install d).graph.edges) := by
  have hends : ∀ side, (d.nodesAfter ed.graph.nodes).get? (w'.node side) =
      ed.graph.nodes.get? (w'.node side) :=
    fun side => Decision.get?_nodesAfter_of_ne hd fun s => hapart s side
  rw [install_eq hd]
  show Decision.make theme ed.catalog (d.nodesAfter ed.graph.nodes) _ w' = _
  rw [Decision.make_congr theme ed.catalog _ hends]
  exact Decision.make_among ..

theorem exists_connect_connect (hapart : ∀ s s', w.node s ≠ w'.node s')
    (hd : ed.decide ed.settings.theme w = .ok d) (hd' : ed.decide ed.settings.theme w' = .ok d') :
    ∃ first second, ed.connect w = .ok first ∧ first.editor.connect w' = .ok second ∧
      first.result = d ∧ second.result.verdict = d'.verdict ∧
      second.editor.graph = ⟨d'.nodesAfter (d.nodesAfter ed.graph.nodes),
        d'.edgesAfter (d.edgesAfter ed.graph.edges)⟩ := by
  obtain ⟨first, hfirst, hresult, hed⟩ := exists_connect_of_decide hd
  have hnext : first.editor.decide first.editor.settings.theme w' =
      .ok (d'.among (ed.install d).graph.edges) := by
    rw [hed, settings_install, decide_install hapart hd, hd']
    rfl
  obtain ⟨second, hsecond, hresult', hed'⟩ := exists_connect_of_decide hnext
  refine ⟨first, second, hfirst, hsecond, hresult, ?_, ?_⟩
  · rw [hresult', Decision.verdict_among]
  · rw [hed', install_eq hnext, hed, install_eq hd, Decision.nodesAfter_among,
      Decision.edgesAfter_among]
    rfl

/-- Two wires that share no node, in either order.  If one order goes without a fault, so does the
other; each wire has the same verdict in both, and they end with the same nodes and the same
edges. -/
theorem connect_comm_of_disjoint (ed : Editor) (w w' : Wire)
    (hapart : ∀ s s', w.node s ≠ w'.node s') (hids : w.edgeId ≠ w'.edgeId)
    {first second : Change Decision} (hfirst : ed.connect w = .ok first)
    (hsecond : first.editor.connect w' = .ok second) :
    ∃ first' second', ed.connect w' = .ok first' ∧ first'.editor.connect w = .ok second' ∧
      first'.result.verdict = second.result.verdict ∧
      second'.result.verdict = first.result.verdict ∧
      second'.editor.graph.nodes = second.editor.graph.nodes ∧
      second'.editor.graph.edges.Perm second.editor.graph.edges := by
  have hapart' : ∀ s s', w'.node s ≠ w.node s' := fun s s' => Ne.symm (hapart s' s)
  obtain ⟨hd, hed⟩ := decide_of_connect hfirst
  obtain ⟨d', hd'⟩ : ∃ d', ed.decide ed.settings.theme w' = .ok d' := by
    have hnext := (decide_of_connect hsecond).1
    rw [hed, settings_install, decide_install hapart hd] at hnext
    obtain ⟨d', hd', -⟩ := map_eq_ok_iff.mp hnext
    exact ⟨d', hd'⟩
  obtain ⟨_, _, hfirst₁, hsecond₁, -, hverdict, hgraph⟩ := exists_connect_connect hapart hd hd'
  obtain rfl := Except.ok.inj (hfirst₁.symm.trans hfirst)
  obtain rfl := Except.ok.inj (hsecond₁.symm.trans hsecond)
  obtain ⟨first', second', hfirst', hsecond', hresult', hverdict', hgraph'⟩ :=
    exists_connect_connect hapart' hd' hd
  refine ⟨first', second', hfirst', hsecond', ?_, hverdict', ?_, ?_⟩
  · rw [hresult', hverdict]
  · rw [hgraph, hgraph']
    exact Decision.nodesAfter_comm hapart' hd' hd
  · rw [hgraph, hgraph']
    exact Decision.edgesAfter_comm hapart' (Ne.symm hids) hd' hd

/-! Two numbers and two boxes.  The first number is in the second box and has to go from it. -/

def crossEditor : Editor :=
  ((Session.start Session.sampleCatalog .standard).run
    [.add "Number" .zero, .add "Box" .zero, .add "Number" .zero, .add "Box" .zero,
      .connect ⟨"1", some "value", "4", some "item"⟩]).editor

theorem connect_comm_of_disjoint_cross :
    let w : Wire := ⟨"1", some "value", "2", some "item"⟩
    let w' : Wire := ⟨"3", some "value", "4", some "item"⟩
    (∀ s s', w.node s ≠ w'.node s') ∧ w.edgeId ≠ w'.edgeId ∧
    ∃ first second first' second', crossEditor.connect w = .ok first ∧
      first.editor.connect w' = .ok second ∧ crossEditor.connect w' = .ok first' ∧
      first'.editor.connect w = .ok second' ∧
      second.editor.graph.edges.map Edge.id = ["edge-1:value->2:item", "edge-3:value->4:item"] ∧
      second'.editor.graph.nodes = second.editor.graph.nodes ∧
      second'.editor.graph.edges.Perm second.editor.graph.edges := by
  intro w w'
  have hapart : ∀ s s', w.node s ≠ w'.node s' := by
    intro s s'
    cases s <;> cases s' <;> decide
  have hids : w.edgeId ≠ w'.edgeId := by decide
  have hrun : ((crossEditor.connect w).toOption.bind fun c => (c.editor.connect w').toOption).map
      (fun c => c.editor.graph.edges.map Edge.id) =
        some ["edge-1:value->2:item", "edge-3:value->4:item"] := by decide +kernel
  obtain ⟨second, hbind, hedges⟩ := Option.map_eq_some_iff.mp hrun
  obtain ⟨first, hfirst, hsecond⟩ := Option.bind_eq_some_iff.mp hbind
  rw [toOption_eq_some_iff] at hfirst hsecond
  obtain ⟨first', second', hfirst', hsecond', -, -, hnodes, hperm⟩ :=
    connect_comm_of_disjoint crossEditor w w' hapart hids hfirst hsecond
  exact ⟨hapart, hids, first, second, first', second', hfirst, hsecond, hfirst', hsecond', hedges,
    hnodes, hperm⟩

end Editor
end Patchbay
