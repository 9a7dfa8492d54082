import Mathlib.Data.List.Infix
import Patchbay.Proofs.Editor.Origin
import Patchbay.Proofs.Editor.Structure
import Patchbay.Proofs.Graph.Typing

/-!
The exact effect of a wire.  A decision finds the edges that have to go by their handles and names
them by their ids, so that no other edge is lost rests on the ids: they have to tell wires apart.
The id of an edge is spelled `edge-source:handle->target:handle`, and it can be taken apart again
where no name in it has a colon or an arrow (`edgeId_injective`).  The ids of nodes are numbers, but
for the start node, and handles are ports or the trigger, so it is enough to ask this of the start
id and of the names of the ports.

With such names an accepted wire drops the edges at its handle and no other, and binds on one node
the parameters that the type of its handle mentions and no other (`run_connect_effect`).
-/

namespace Patchbay

/-! ### Names and ids -/

/-- A name that can be told from what stands around it in the id of an edge. -/
structure PlainName (name : String) : Prop where
  noColon : ¬[':'] <:+: name.toList
  noArrow : ¬['-', '>'] <:+: name.toList

instance (name : String) : Decidable (PlainName name) :=
  decidable_of_iff (¬[':'] <:+: name.toList ∧ ¬['-', '>'] <:+: name.toList)
    ⟨fun h => ⟨h.1, h.2⟩, fun h => ⟨h.noColon, h.noArrow⟩⟩

/-- A text is cut at the first place where the separator stands.  That is known of the text before
it if the separator does not begin there either. -/
theorem append_separator_cancel {sep a a' b b' : List Char} (ha : ¬sep <:+: a ++ sep.dropLast)
    (ha' : ¬sep <:+: a' ++ sep.dropLast) (h : a ++ (sep ++ b) = a' ++ (sep ++ b')) :
    a = a' ∧ b = b' := by
  -- If one of the texts before the separator were longer by `k`, the separator would begin in it.
  have hcut : ∀ {a k b b' : List Char}, ¬sep <:+: (a ++ k) ++ sep.dropLast →
      sep ++ b = k ++ (sep ++ b') → k = [] := by
    intro a k b b' hnot heq
    by_contra hk
    have hlong : k ++ sep.dropLast <+: sep ++ b := by
      rw [heq, List.prefix_append_right_inj]
      exact (List.dropLast_prefix sep).trans (List.prefix_append ..)
    have hlength : sep.length ≤ (k ++ sep.dropLast).length := by
      have hpos := List.length_pos_iff.mpr hk
      rw [List.length_append, List.length_dropLast]
      omega
    have hbegins := List.prefix_of_prefix_length_le (List.prefix_append sep b) hlong hlength
    apply hnot
    rw [List.append_assoc]
    exact hbegins.isInfix.trans (List.suffix_append ..).isInfix
  rcases List.append_eq_append_iff.mp h with ⟨k, rfl, hk⟩ | ⟨k, rfl, hk⟩
  · obtain rfl := hcut ha' hk
    simpa using hk
  · obtain rfl := hcut ha hk
    simpa using hk.symm

theorem cut_at_colon {x x' : String} {b b' : List Char} (hx : PlainName x) (hx' : PlainName x')
    (h : x.toList ++ ([':'] ++ b) = x'.toList ++ ([':'] ++ b')) : x = x' ∧ b = b' := by
  have hcut : ∀ {y : String}, PlainName y → ¬[':'] <:+: y.toList ++ [':'].dropLast := by
    intro y hy
    rw [List.dropLast_singleton, List.append_nil]
    exact hy.noColon
  obtain ⟨hbefore, hafter⟩ := append_separator_cancel (hcut hx) (hcut hx') h
  exact ⟨String.toList_injective hbefore, hafter⟩

theorem cut_at_arrow {x x' : String} {b b' : List Char} (hx : PlainName x) (hx' : PlainName x')
    (h : x.toList ++ (['-', '>'] ++ b) = x'.toList ++ (['-', '>'] ++ b')) : x = x' ∧ b = b' := by
  have hcut : ∀ {y : String}, PlainName y → ¬['-', '>'] <:+: y.toList ++ ['-', '>'].dropLast := by
    intro y hy hoccurs
    rcases List.infix_concat_iff.mp hoccurs with hends | hoccurs
    · obtain ⟨before, heq⟩ := hends
      have hlast := congrArg List.getLast? heq
      simp at hlast
    · exact hy.noArrow hoccurs
  obtain ⟨hbefore, hafter⟩ := append_separator_cancel (hcut hx) (hcut hx') h
  exact ⟨String.toList_injective hbefore, hafter⟩

theorem plainName_toString (number : Nat) : PlainName (toString number) := by
  have hdigit : ∀ c ∈ (toString number).toList, c.isDigit = true := by
    intro c hc
    rw [Nat.toString_eq_ofList_toDigits, String.toList_ofList] at hc
    exact Nat.isDigit_of_mem_toDigits (by decide) (by decide) hc
  constructor
  · intro hoccurs
    exact absurd (hdigit ':' (hoccurs.subset List.mem_cons_self)) (by decide)
  · intro hoccurs
    exact absurd (hdigit '-' (hoccurs.subset List.mem_cons_self)) (by decide)

namespace Wire

/-- The id of a wire between such handles can be taken apart. -/
structure Legible (w : Wire) : Prop where
  node : ∀ side, PlainName (w.node side)
  handle : ∀ side, ∃ name, w.handle side = some name ∧ PlainName name

theorem edgeId_injective {w w' : Wire} (hw : w.Legible) (hw' : w'.Legible)
    (h : w.edgeId = w'.edgeId) : w = w' := by
  obtain ⟨source, sourceHandle, target, targetHandle⟩ := w
  obtain ⟨source', sourceHandle', target', targetHandle'⟩ := w'
  obtain ⟨out, rfl, hout⟩ := hw.handle .output
  obtain ⟨inp, rfl, hinp⟩ := hw.handle .input
  obtain ⟨out', rfl, hout'⟩ := hw'.handle .output
  obtain ⟨inp', rfl, hinp'⟩ := hw'.handle .input
  have hsource : PlainName source ∧ PlainName source' := ⟨hw.node .output, hw'.node .output⟩
  have htarget : PlainName target ∧ PlainName target' := ⟨hw.node .input, hw'.node .input⟩
  have htext := congrArg String.toList h
  simp only [edgeId, handleText, Option.getD_some, String.toList_append, List.append_assoc] at htext
  obtain ⟨hsource, hrest⟩ := cut_at_colon hsource.1 hsource.2 (List.append_cancel_left htext)
  obtain ⟨hout, hrest⟩ := cut_at_arrow hout hout' hrest
  obtain ⟨htarget, hrest⟩ := cut_at_colon htarget.1 htarget.2 hrest
  rw [hsource, hout, htarget, String.toList_injective hrest]

end Wire

/-- An edge under the id of its wire, which can be taken apart. -/
structure Edge.Legible (e : Edge) : Prop where
  id_eq : e.id = e.wire.edgeId
  wire : e.wire.Legible

/-- With such ids the edges that are dropped are those that the new one displaces.  An edge of the
id of the new one is among them. -/
theorem Edge.stays_of_legible {edges : List Edge} {new e : Edge} (hedges : ∀ e ∈ edges, e.Legible)
    (hnew : new.Legible) (he : e ∈ edges) : stays edges new e = !new.displaces e := by
  -- An edge of the same id has the same wire, and handles are all that is asked of it.
  have hsame : ∀ {f : Edge}, f.Legible → f.id = e.id → f.wire = e.wire := by
    intro f hf hid
    rw [hf.id_eq, (hedges e he).id_eq] at hid
    exact Wire.edgeId_injective hf.wire (hedges e he).wire hid
  rw [Bool.eq_iff_iff, stays_iff, Bool.not_eq_true']
  constructor
  · rintro ⟨hkept, -⟩
    by_contra hdisplaced
    exact hkept e he (by simpa using hdisplaced) rfl
  · intro hkept
    refine ⟨fun f hf hdisplaced hid => ?_, fun hid => ?_⟩
    · have hdisplaced' : new.displaces e = true := by
        rw [← hdisplaced]
        simp only [displaces, leaves, enters, hsame (hedges f hf) hid]
      rw [hkept] at hdisplaced'
      cases hdisplaced'
    · have hdisplaced : new.displaces e = true := by
        simp [displaces, leaves, enters, hsame hnew hid.symm]
      rw [hkept] at hdisplaced
      cases hdisplaced

/-! ### Where the names come from -/

def Catalog.PlainPorts (catalog : Catalog) : Prop :=
  ∀ t ∈ catalog.values, ∀ p ∈ t.inputs ++ t.outputs, PlainName p.name

instance (catalog : Catalog) : Decidable catalog.PlainPorts :=
  inferInstanceAs (Decidable (∀ t ∈ catalog.values, ∀ p ∈ t.inputs ++ t.outputs, PlainName p.name))

/-- A handle that is found is a port or the trigger. -/
theorem Handle.plainName_of_inspect {catalog : Catalog} (hports : catalog.PlainPorts)
    {nodes : Nodes} {id : String} {handle : Option String} {side : Side} {h : Handle}
    (hh : inspect nodes catalog id handle side = .ok (some h)) :
    ∃ name, handle = some name ∧ PlainName name := by
  obtain ⟨name, n, t, hname, -, -, ht, hof⟩ := inspect_eq_some_iff.mp hh
  have hport : ∀ {p : Port}, t.port? name side = some p → PlainName name := by
    intro p hp
    have hpname : p.name = name := by simpa using List.find?_some hp
    rw [← hpname]
    exact hports t (Catalog.mem_values ht) p (NodeType.mem_ports hp)
  refine ⟨name, hname, ?_⟩
  rcases ofNode_eq_some_iff.mp hof with ⟨rfl, -⟩ | ⟨-, p, hp, -⟩ | ⟨-, p, _, hp, -⟩
  · decide
  · exact hport hp
  · exact hport hp

/-- All ids of nodes are plain, and the ids of all edges can be taken apart. -/
structure Graph.Legible (g : Graph) : Prop where
  node : ∀ id ∈ g.nodes.keys, PlainName id
  edge : ∀ e ∈ g.edges, e.Legible

def Decision.Legible (d : Decision) : Prop :=
  ∀ edge rebinding evicted, d = .accepted edge rebinding evicted → edge.Legible

namespace Session

variable {catalog : Catalog} {settings : Settings}

theorem legible_of_decide (hports : catalog.PlainPorts) {ed : Editor}
    (hcatalog : ed.catalog = catalog) (hed : ed.graph.Legible) {theme : Theme} {wire : Wire}
    {d : Decision} (hd : ed.decide theme wire = .ok d) : d.Legible := by
  rintro edge rebinding evicted rfl
  subst hcatalog
  have hends := Decision.exists_inspect_of_accepted hd
  obtain ⟨_, _, _, -, -, -, -, rfl, -⟩ := Decision.make_eq_accepted_iff.mp hd
  refine ⟨rfl, fun side => ?_, fun side => ?_⟩
  · obtain ⟨x, hx⟩ := hends side
    obtain ⟨_, n, _, -, -, hn, -⟩ := Handle.inspect_eq_some_iff.mp hx
    exact hed.node _ (Table.mem_keys_iff.mpr ⟨n, hn⟩)
  · obtain ⟨x, hx⟩ := hends side
    exact Handle.plainName_of_inspect hports hx

theorem lasting_legible (hstart : PlainName settings.startId) (hports : catalog.PlainPorts) :
    Lasting catalog settings Graph.Legible Decision.Legible where
  step := by
    rintro ed ed' hcatalog rfl hed hstep
    constructor
    · intro id hid
      rcases hstep.mem_keys hid with hold | rfl | ⟨number, rfl⟩
      · exact hed.node id hold
      · exact hstart
      · exact plainName_toString number
    · intro e he
      rcases hstep.mem_edges he with hold | ⟨wire, rebinding, evicted, hd⟩
      · exact hed.edge e hold
      · exact legible_of_decide hports hcatalog hed hd e rebinding evicted rfl
  decide := fun hcatalog hed hd => legible_of_decide hports hcatalog hed hd
  install := by
    intro ed d hed hd
    constructor
    · rw [Editor.nodes_install, Decision.keys_nodesAfter]
      exact hed.node
    · intro e he
      rcases Editor.mem_edges_install he with hold | ⟨rebinding, evicted, rfl⟩
      · exact hed.edge e hold
      · exact hd e rebinding evicted rfl

theorem legible_run (hstart : PlainName settings.startId) (hports : catalog.PlainPorts)
    (actions : List Action) (hloads : ∀ a ∈ actions, a.loads = false) :
    ((start catalog settings).run actions).Holds catalog settings Graph.Legible
      Decision.Legible := by
  refine holds_run (lasting_legible hstart hports) (holds_start ⟨?_, ?_⟩) actions hloads
  · intro id hid
    rw [List.mem_singleton.mp hid]
    exact hstart
  · intro e he
    cases he

end Session

/-! ### New bindings -/

/-- What becomes of the nodes by a wire.  Nothing, if no parameter is free at its ends.  Or else the
node at one end is bound: what was bound on it stays, and the parameters that the type of the handle
mentions come in. -/
inductive Wire.Rebinds (catalog : Catalog) (nodes : Nodes) (w : Wire) : Nodes → Prop
  | nothing
      (settled : ∀ side type free, w.inspect catalog nodes side = .ok (some (.data type free)) →
        free = []) : Rebinds catalog nodes w nodes
  | one (side : Side) {n : Node} {t : NodeType} {type : TypeTree} {b : Bindings}
      (node : nodes.get? (w.node side) = some n) (nodeType : catalog.get? n.nodeType = some t)
      (here : w.inspect catalog nodes side = .ok (some (.data type (Handle.freeParams t n))))
      (keeps : ∀ p x, n.bindings.get? p = some x → b.get? p = some x)
      (adds : ∀ p, n.bindings.get? p = none → (p ∈ b.keys ↔ p ∈ t.params ∧ p ∈ type.labels)) :
      Rebinds catalog nodes w (nodes.insert (w.node side) { n with bindings := b })

theorem Wire.Fits.rebinds {catalog : Catalog} {nodes : Nodes} {w : Wire}
    {rebinding : Option Rebinding} (h : w.Fits catalog nodes rebinding) (edge : Edge)
    (evicted : List String) :
    w.Rebinds catalog nodes ((Decision.accepted edge rebinding evicted).nodesAfter nodes) := by
  cases h with
  | control ends =>
    refine .nothing fun side type free hdata => ?_
    rw [ends side] at hdata
    cases hdata
  | settled types ends agrees =>
    refine .nothing fun side type free hdata => ?_
    rw [ends side] at hdata
    cases hdata
    rfl
  | resolved side here isFree there found =>
    obtain ⟨n, t, d, hport, -, rfl⟩ := Handle.exists_port here
    rw [Decision.nodesAfter_rebindingOf hport.node]
    refine .one side hport.node hport.nodeType here ?_ ?_
    · intro p x hx
      rw [Table.get?_union, hx, Option.some_or]
    · intro p hnone
      have hfree : p ∈ Handle.freeParams t n ↔ p ∈ t.params := by
        rw [Handle.mem_freeParams, and_iff_left hnone]
      rw [← hfree, ← TypeTree.mem_keys_resolve found, Table.mem_keys_iff, Table.mem_keys_iff,
        Table.get?_union, hnone, Option.none_or]

/-! ### Connecting -/

theorem Editor.edges_install {ed : Editor} {theme : Theme} {wire : Wire} {edge : Edge}
    {rebinding : Option Rebinding} {evicted : List String}
    (hd : ed.decide theme wire = .ok (.accepted edge rebinding evicted)) (hed : ed.graph.Legible)
    (hedge : edge.Legible) :
    (ed.install (.accepted edge rebinding evicted)).graph.edges =
      ed.graph.edges.filter (fun e => !edge.displaces e) ++ [edge] := by
  have hkept : ed.graph.edges.filter (Edge.stays ed.graph.edges edge) =
      ed.graph.edges.filter fun e => !edge.displaces e :=
    List.filter_congr fun e he => Edge.stays_of_legible hed.edge hedge he
  rw [install_eq hd, ← hkept]
  rfl

namespace Session

/-- A wire is decided on and the decision is installed, or the session stays as it is. -/
theorem perform_connect (s : Session) (wire : Wire) :
    (∃ f, (s.perform (.connect wire)).result = .error f ∧
      (s.perform (.connect wire)).session = s) ∨
    ∃ d, s.editor.decide s.editor.settings.theme wire = .ok d ∧
      (s.perform (.connect wire)).result = .ok (.decision d) ∧
      (s.perform (.connect wire)).session.editor = s.editor.install d := by
  obtain ⟨xs, hconnect, hnil⟩ := s.connect_eq wire
  rw [perform, hconnect]
  cases hc : s.editor.connect wire with
  | error f =>
    rw [hnil f hc]
    exact .inl ⟨f, rfl, rfl⟩
  | ok c =>
    obtain ⟨hd, hed⟩ := Editor.decide_of_connect hc
    exact .inr ⟨c.result, hd, rfl, hed⟩

/-- The run may apply decisions, and these are those that it validated itself; loading apart, no
other graph and no other decision can come into it. -/
theorem run_connect_effect (catalog : Catalog) (settings : Settings)
    (hstart : PlainName settings.startId) (hports : catalog.PlainPorts) (actions : List Action)
    (hloads : ∀ a ∈ actions, a.loads = false) (wire : Wire) :
    let s := (start catalog settings).run actions
    let r := s.perform (.connect wire)
    (∀ edge rebinding evicted, r.result = .ok (.decision (.accepted edge rebinding evicted)) →
      edge.wire = wire ∧ edge.id = wire.edgeId ∧
      Graph.Joins catalog s.editor.graph.nodes edge ∧
      r.session.editor.graph.edges =
        s.editor.graph.edges.filter (fun e => !edge.displaces e) ++ [edge] ∧
      wire.Rebinds catalog s.editor.graph.nodes r.session.editor.graph.nodes) ∧
    ((∀ edge rebinding evicted, r.result ≠ .ok (.decision (.accepted edge rebinding evicted))) →
      r.session.editor.graph = s.editor.graph) := by
  intro s r
  have hs : s.Holds catalog settings Graph.Legible Decision.Legible :=
    legible_run hstart hports actions hloads
  obtain ⟨hcatalog, -, hgraph, -⟩ := hs.keeps
  rcases perform_connect s wire with ⟨f, hresult, hsession⟩ | ⟨d, hd, hresult, hed⟩
  · refine ⟨fun edge rebinding evicted haccepted => ?_, fun _ => ?_⟩
    · rw [hresult] at haccepted
      cases haccepted
    · rw [hsession]
  · refine ⟨fun edge rebinding evicted haccepted => ?_, fun hnot => ?_⟩
    · rw [hresult] at haccepted
      cases haccepted
      have hedge := legible_of_decide hports hcatalog hgraph hd edge rebinding evicted rfl
      have hwire : edge.wire = wire := Decision.wire_of_accepted hd
      rw [← hcatalog, hed, Editor.edges_install hd hgraph hedge, Editor.nodes_install]
      exact ⟨hwire, hwire ▸ hedge.id_eq, Graph.joins_of_accepted hd, rfl,
        (Decision.fits_of_accepted hd).rebinds edge evicted⟩
    · cases d with
      | rejected reason => rw [hed, Editor.install]
      | accepted edge rebinding evicted => exact absurd hresult (hnot edge rebinding evicted)

/-! Two boxes and a sum.  The second box takes the place of the first one, and its parameter is
bound by that. -/

def sumCatalog : Catalog := Table.ofList [
  ("StartNode", sampleType [] [] []),
  ("Box", sampleType [("item", "T")] [("box", "list<T>")] ["T"]),
  ("Sum", sampleType [("list", "list<int>")] [] [])]

def sumRun : List Action := [
  .add "Box" .zero, .add "Box" .zero, .add "Sum" .zero,
  .connect ⟨"1", some "box", "3", some "list"⟩]

def sumSession : Session := (start sumCatalog .standard).run sumRun

def sumWire : Wire := ⟨"2", some "box", "3", some "list"⟩

theorem run_connect_effect_sum :
    PlainName Settings.standard.startId ∧ sumCatalog.PlainPorts ∧
    (∀ a ∈ sumRun, a.loads = false) ∧
    sumSession.editor.graph.edges.map Edge.id = ["edge-1:box->3:list"] ∧
    (sumSession.perform (.connect sumWire)).session.editor.graph.edges.map Edge.id =
      ["edge-2:box->3:list"] ∧
    ∃ edge rebinding evicted,
      (sumSession.perform (.connect sumWire)).result =
        .ok (.decision (.accepted edge rebinding evicted)) ∧
      (sumSession.perform (.connect sumWire)).session.editor.graph.edges =
        sumSession.editor.graph.edges.filter (fun e => !edge.displaces e) ++ [edge] ∧
      sumWire.Rebinds sumCatalog sumSession.editor.graph.nodes
        (sumSession.perform (.connect sumWire)).session.editor.graph.nodes := by
  have hstart : PlainName Settings.standard.startId := by decide
  have hports : sumCatalog.PlainPorts := by decide +kernel
  have hloads : ∀ a ∈ sumRun, a.loads = false := by decide
  have hbefore : sumSession.editor.graph.edges.map Edge.id = ["edge-1:box->3:list"] := by
    decide +kernel
  have hafter : (sumSession.perform (.connect sumWire)).session.editor.graph.edges.map Edge.id =
      ["edge-2:box->3:list"] := by decide +kernel
  obtain ⟨haccepted, hnot⟩ :=
    run_connect_effect sumCatalog .standard hstart hports sumRun hloads sumWire
  have hsession : (start sumCatalog .standard).run sumRun = sumSession := rfl
  rw [hsession] at haccepted hnot
  have hexists : ∃ edge rebinding evicted, (sumSession.perform (.connect sumWire)).result =
      .ok (.decision (.accepted edge rebinding evicted)) := by
    by_contra hnone
    push Not at hnone
    rw [hnot hnone, hbefore] at hafter
    exact absurd hafter (by decide)
  obtain ⟨edge, rebinding, evicted, hresult⟩ := hexists
  obtain ⟨-, -, -, hedges, hnodes⟩ := haccepted edge rebinding evicted hresult
  exact ⟨hstart, hports, hloads, hbefore, hafter, edge, rebinding, evicted, hresult, hedges, hnodes⟩

end Session
end Patchbay
