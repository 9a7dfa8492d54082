import Patchbay.Proofs.Editor.Step

/-!
The structure of graphs that an editor builds.  Every node stands under its own id, the start node
is there and triggered, and every edge joins two handles of one kind; ids of edges differ, a data
input has one edge and a control output has one edge.

Kinds of handles depend on the types of nodes alone, which no step changes, so an edge that joined
two handles of one kind goes on to do so for as long as its nodes are there.
-/

namespace Patchbay

namespace Graph

/-- An edge joins two handles of one kind and is animated exactly if that kind is control. -/
def Joins (catalog : Catalog) (nodes : Nodes) (e : Edge) : Prop :=
  ∃ s t, Handle.inspect nodes catalog e.wire.source e.wire.sourceHandle .output = .ok (some s) ∧
    Handle.inspect nodes catalog e.wire.target e.wire.targetHandle .input = .ok (some t) ∧
    s.kind = t.kind ∧ (e.animated = true ↔ s.kind = .control)

theorem Joins.keep {catalog : Catalog} {nodes nodes' : Nodes} {e : Edge}
    (h : Joins catalog nodes e) (hs : nodes.Keep Node.SameType nodes' e.wire.source)
    (ht : nodes.Keep Node.SameType nodes' e.wire.target) : Joins catalog nodes' e := by
  obtain ⟨s, t, hsource, htarget, hkind, hanimated⟩ := h
  obtain ⟨s', hsource', hs'⟩ := Handle.exists_inspect_of_keep hs hsource
  obtain ⟨t', htarget', ht'⟩ := Handle.exists_inspect_of_keep ht htarget
  exact ⟨s', t', hsource', htarget', by rw [hs', ht', hkind], by rw [hs', hanimated]⟩

theorem joins_of_accepted {theme : Theme} {catalog : Catalog} {nodes : Nodes} {edges : List Edge}
    {wire : Wire} {edge : Edge} {rebinding : Option Rebinding} {evicted : List String}
    (hd : Decision.make theme catalog nodes edges wire = .ok (.accepted edge rebinding evicted)) :
    Joins catalog nodes edge := by
  obtain ⟨s, t, css, hs, ht, hcheck, -, rfl, -⟩ := Decision.make_eq_accepted_iff.mp hd
  exact ⟨s, t, hs, ht, Decision.kind_eq_of_checkHandles hcheck, by simp⟩

/-! ### The invariant -/

/-- The rules by which an editor builds graphs.  That an edge is animated tells the kind of its
handles, so the last two rules need not look at the nodes. -/
structure Ruled (catalog : Catalog) (startId : String) (g : Graph) : Prop where
  ownId : ∀ id n, g.nodes.get? id = some n → n.id = id
  start : ∃ n, g.nodes.get? startId = some n ∧ n.mode = .triggered
  ids : (g.edges.map Edge.id).Nodup
  joins : ∀ e ∈ g.edges, Joins catalog g.nodes e
  oneIn : ∀ e ∈ g.edges, ∀ f ∈ g.edges, e.animated = false → f.animated = false →
    e.wire.target = f.wire.target → e.wire.targetHandle = f.wire.targetHandle → e = f
  oneOut : ∀ e ∈ g.edges, ∀ f ∈ g.edges, e.animated = true → f.animated = true →
    e.wire.source = f.wire.source → e.wire.sourceHandle = f.wire.sourceHandle → e = f

variable {catalog : Catalog} {startId : String} {g : Graph}

/-- A change of the nodes keeps the rules if it keeps the first two and the types of nodes. -/
theorem Ruled.withNodes (h : Ruled catalog startId g) {nodes : Nodes}
    (hown : ∀ id n, nodes.get? id = some n → n.id = id)
    (hstart : ∃ n, nodes.get? startId = some n ∧ n.mode = .triggered)
    (hkeep : ∀ e ∈ g.edges, g.nodes.Keep Node.SameType nodes e.wire.source ∧
      g.nodes.Keep Node.SameType nodes e.wire.target) :
    Ruled catalog startId ⟨nodes, g.edges⟩ :=
  ⟨hown, hstart, h.ids, fun e he => (h.joins e he).keep (hkeep e he).1 (hkeep e he).2,
    h.oneIn, h.oneOut⟩

/-- Edges may go. -/
theorem Ruled.filterEdges (h : Ruled catalog startId g) (p : Edge → Bool) :
    Ruled catalog startId ⟨g.nodes, g.edges.filter p⟩ := by
  have hsub : ∀ {e}, e ∈ g.edges.filter p → e ∈ g.edges := fun he => (List.mem_filter.mp he).1
  exact ⟨h.ownId, h.start, (List.filter_sublist.map Edge.id).nodup h.ids,
    fun e he => h.joins e (hsub he), fun e he f hf => h.oneIn e (hsub he) f (hsub hf),
    fun e he f hf => h.oneOut e (hsub he) f (hsub hf)⟩

/-- A node may be replaced by one of its id and type. -/
theorem Ruled.replaceNode (h : Ruled catalog startId g) {id : String} {n n' : Node}
    (hn : g.nodes.get? id = some n) (hid : n'.id = n.id) (htype : n'.nodeType = n.nodeType)
    (hmode : id = startId → n.mode = .triggered → n'.mode = .triggered) :
    Ruled catalog startId ⟨g.nodes.insert id n', g.edges⟩ := by
  refine h.withNodes ?_ ?_ fun e _ => ⟨Nodes.keep_insert Node.SameType.refl hn htype _,
    Nodes.keep_insert Node.SameType.refl hn htype _⟩
  · intro j m hm
    rw [Table.get?_insert] at hm
    split at hm
    · next hj =>
      injection hm with hm
      rw [← hm, hid, hj]
      exact h.ownId id n hn
    · exact h.ownId j m hm
  · obtain ⟨m, hm, hmt⟩ := h.start
    by_cases hs : startId = id
    · subst hs
      rw [hn, Option.some.injEq] at hm
      exact ⟨n', Table.get?_insert_self _ _ _, hmode rfl (hm ▸ hmt)⟩
    · exact ⟨m, by rw [Table.get?_insert_of_ne _ hs, hm], hmt⟩

theorem Ruled.placeNode (h : Ruled catalog startId g) {n : Node}
    (hfresh : g.nodes.get? n.id = none) :
    Ruled catalog startId ⟨g.nodes.insert n.id n, g.edges⟩ := by
  refine h.withNodes ?_ ?_ fun e _ => ⟨Nodes.keep_insert_fresh Node.SameType.refl n hfresh _,
    Nodes.keep_insert_fresh Node.SameType.refl n hfresh _⟩
  · intro j m hm
    rw [Table.get?_insert] at hm
    split at hm
    · next hj =>
      injection hm with hm
      rw [← hm, hj]
    · exact h.ownId j m hm
  · obtain ⟨m, hm, hmt⟩ := h.start
    have hs : startId ≠ n.id := by
      rintro rfl
      rw [hfresh] at hm
      cases hm
    exact ⟨m, by rw [Table.get?_insert_of_ne _ hs, hm], hmt⟩

theorem Ruled.deleteNode (h : Ruled catalog startId g) {id : String}
    (hstart : id ≠ startId) :
    Ruled catalog startId ⟨g.nodes.erase id, g.edges.filter fun e => !e.meets id⟩ := by
  refine (h.filterEdges fun e => !e.meets id).withNodes ?_ ?_ ?_
  · intro j m hm
    exact h.ownId j m (Table.get?_eq_some_of_erase hm)
  · obtain ⟨m, hm, hmt⟩ := h.start
    exact ⟨m, by rw [Table.get?_erase_of_ne _ (Ne.symm hstart), hm], hmt⟩
  · intro e he
    have hne := Edge.ends_ne_of_not_meets (List.mem_filter.mp he).2
    exact ⟨Nodes.keep_erase Node.SameType.refl hne.1,
      Nodes.keep_erase Node.SameType.refl hne.2⟩

theorem Ruled.nodesAfter (h : Ruled catalog startId g) (d : Decision) :
    Ruled catalog startId ⟨d.nodesAfter g.nodes, g.edges⟩ := by
  cases d with
  | rejected reason => exact h
  | accepted edge rebinding evicted =>
    cases rebinding with
    | none => exact h
    | some r =>
      cases hn : g.nodes.get? r.node with
      | none => simpa [Decision.nodesAfter, Decision.rebind, hn] using h
      | some n =>
        simp only [Decision.nodesAfter, Decision.rebind, hn, Option.map_some, Option.getD_some]
        refine h.replaceNode hn ?_ ?_ fun _ hmode => hmode
        · rfl
        · rfl

/-- Of the edges that `R` relates there is still one, if the new edge is related to none. -/
theorem eq_of_mem_concat {R : Edge → Edge → Prop} {edges : List Edge} {edge : Edge}
    (hsymm : ∀ {e f}, R e f → R f e) (hold : ∀ e ∈ edges, ∀ f ∈ edges, R e f → e = f)
    (hnew : ∀ e ∈ edges, ¬R e edge) :
    ∀ e ∈ edges ++ [edge], ∀ f ∈ edges ++ [edge], R e f → e = f := by
  intro e he f hf hR
  rcases List.mem_append.mp he with he | he <;> rcases List.mem_append.mp hf with hf | hf
  · exact hold e he f hf hR
  · rw [List.mem_singleton.mp hf] at hR
    exact absurd hR (hnew e he)
  · rw [List.mem_singleton.mp he] at hR
    exact absurd (hsymm hR) (hnew f hf)
  · rw [List.mem_singleton.mp he, List.mem_singleton.mp hf]

theorem Ruled.addEdge (h : Ruled catalog startId g) {edge : Edge}
    (hjoins : Joins catalog g.nodes edge) (hid : ∀ e ∈ g.edges, e.id ≠ edge.id)
    (hin : edge.animated = false → ∀ e ∈ g.edges, e.wire.target = edge.wire.target →
      e.wire.targetHandle ≠ edge.wire.targetHandle)
    (hout : edge.animated = true → ∀ e ∈ g.edges, e.wire.source = edge.wire.source →
      e.wire.sourceHandle ≠ edge.wire.sourceHandle) :
    Ruled catalog startId ⟨g.nodes, g.edges ++ [edge]⟩ where
  ownId := h.ownId
  start := h.start
  ids := by
    rw [List.map_append, List.nodup_append]
    refine ⟨h.ids, by simp, ?_⟩
    intro i hi j hj
    obtain ⟨e, he, rfl⟩ := List.mem_map.mp hi
    obtain rfl : j = edge.id := by simpa using hj
    exact hid e he
  joins := by
    intro e he
    rcases List.mem_append.mp he with he | he
    · exact h.joins e he
    · rwa [List.mem_singleton.mp he]
  oneIn := by
    intro e he f hf hea hfa htarget hhandle
    refine eq_of_mem_concat (R := fun a b => a.animated = false ∧ b.animated = false ∧
      a.wire.target = b.wire.target ∧ a.wire.targetHandle = b.wire.targetHandle) ?_ ?_ ?_ e he f hf
      ⟨hea, hfa, htarget, hhandle⟩
    · exact fun ⟨ha, hb, ht, hh⟩ => ⟨hb, ha, ht.symm, hh.symm⟩
    · exact fun a ha b hb ⟨haa, hba, ht, hh⟩ => h.oneIn a ha b hb haa hba ht hh
    · exact fun a ha ⟨_, hedge, ht, hh⟩ => hin hedge a ha ht hh
  oneOut := by
    intro e he f hf hea hfa hsource hhandle
    refine eq_of_mem_concat (R := fun a b => a.animated = true ∧ b.animated = true ∧
      a.wire.source = b.wire.source ∧ a.wire.sourceHandle = b.wire.sourceHandle) ?_ ?_ ?_ e he f hf
      ⟨hea, hfa, hsource, hhandle⟩
    · exact fun ⟨ha, hb, hs, hh⟩ => ⟨hb, ha, hs.symm, hh.symm⟩
    · exact fun a ha b hb ⟨haa, hba, hs, hh⟩ => h.oneOut a ha b hb haa hba hs hh
    · exact fun a ha ⟨_, hedge, hs, hh⟩ => hout hedge a ha hs hh

/-! Edges are evicted by their ids, so none that is kept stands at the handle. -/

theorem targetHandle_ne_of_kept {wire : Wire} {edges : List Edge} {e : Edge} (he : e ∈ edges)
    (hkept : e.id ∉ Decision.evictedBy wire .data edges)
    (htarget : e.wire.target = wire.target) : e.wire.targetHandle ≠ wire.targetHandle := by
  intro hhandle
  have henters : e.enters wire.target wire.targetHandle = true := by
    simp [Edge.enters, htarget, hhandle]
  exact hkept (List.mem_map.mpr ⟨e, List.mem_filter.mpr ⟨he, henters⟩, rfl⟩)

theorem sourceHandle_ne_of_kept {wire : Wire} {edges : List Edge} {e : Edge} (he : e ∈ edges)
    (hkept : e.id ∉ Decision.evictedBy wire .control edges)
    (hsource : e.wire.source = wire.source) : e.wire.sourceHandle ≠ wire.sourceHandle := by
  intro hhandle
  have hleaves : e.leaves wire.source wire.sourceHandle = true := by
    simp [Edge.leaves, hsource, hhandle]
  exact hkept (List.mem_map.mpr ⟨e, List.mem_filter.mpr ⟨he, hleaves⟩, rfl⟩)

theorem Ruled.connect (h : Ruled catalog startId g) {theme : Theme} {wire : Wire}
    {edge : Edge} {rebinding : Option Rebinding} {evicted : List String}
    (hd : Decision.make theme catalog g.nodes g.edges wire =
      .ok (.accepted edge rebinding evicted)) :
    Ruled catalog startId
      ⟨(Decision.accepted edge rebinding evicted).nodesAfter g.nodes,
        Editor.keptBy g.edges edge evicted ++ [edge]⟩ := by
  -- The new edge is added to the old nodes; after that, new bindings change no kind.
  suffices hadded : Ruled catalog startId
      ⟨g.nodes, Editor.keptBy g.edges edge evicted ++ [edge]⟩ from hadded.nodesAfter _
  have hjoins := joins_of_accepted hd
  obtain ⟨s, t, css, -, -, -, -, rfl, rfl⟩ := Decision.make_eq_accepted_iff.mp hd
  refine (h.filterEdges _).addEdge hjoins ?_ ?_ ?_
  · intro e he
    have hkept := (List.mem_filter.mp he).2
    simp only [Bool.and_eq_true, bne_iff_ne] at hkept
    exact hkept.2
  · intro hdata e he htarget
    obtain ⟨he, hkept⟩ := List.mem_filter.mp he
    have hkind : s.kind = .data := by
      cases hk : s.kind with
      | control => simp [hk] at hdata
      | data => rfl
    rw [hkind] at hkept
    exact targetHandle_ne_of_kept he (by simp_all) htarget
  · intro hcontrol e he hsource
    obtain ⟨he, hkept⟩ := List.mem_filter.mp he
    have hkind : s.kind = .control := by simpa using hcontrol
    rw [hkind] at hkept
    exact sourceHandle_ne_of_kept he (by simp_all) hsource

theorem ruled_start (catalog : Catalog) (settings : Settings) :
    Ruled catalog settings.startId (Editor.start catalog settings).graph := by
  have hget : ∀ id n, (Editor.start catalog settings).graph.nodes.get? id = some n →
      id = settings.startId ∧ n = Editor.startNode settings.startId := by
    intro id n hn
    have hmem := Table.get?_eq_some_iff.mp hn
    simpa [Editor.start, Editor.reset, Nodes.ofList, Table.ofList, Table.insert, Table.empty,
      Table.put, Editor.startNode] using hmem
  refine ⟨?_, ⟨Editor.startNode settings.startId, ?_, rfl⟩, List.nodup_nil, ?_, ?_, ?_⟩
  · intro id n hn
    obtain ⟨rfl, rfl⟩ := hget id n hn
    rfl
  · exact Table.get?_eq_some_iff.mpr List.mem_cons_self
  all_goals
    intro e he
    cases he

/-- Every step keeps the rules. -/
theorem ruled_step {allowed : Editor → Wire → Prop} {settings : Settings} {ed ed' : Editor}
    (hcatalog : ed.catalog = catalog) (hsettings : ed.settings = settings)
    (h : Ruled catalog settings.startId ed.graph) (hstep : ed.Step allowed ed') :
    Ruled catalog settings.startId ed'.graph := by
  subst hcatalog hsettings
  cases hstep with
  | stay => exact h
  | place later named fresh bare => exact h.placeNode fresh
  | delete notStart => exact h.deleteNode notStart
  | setInputs found => exact h.replaceNode found rfl rfl fun _ hmode => hmode
  | @setMode id n mode found start =>
    have hkept : Ruled ed.catalog ed.settings.startId
        ⟨ed.graph.nodes, Editor.keptInMode ed.graph.edges n id mode⟩ := by
      unfold Editor.keptInMode
      split
      · exact h.filterEdges _
      · exact h
    exact hkept.replaceNode found rfl rfl fun hid _ => start hid
  | unbind found => exact (h.filterEdges _).replaceNode found rfl rfl fun _ hmode => hmode
  | connect decided => exact h.connect decided
  | removeEdges => exact h.filterEdges _
  | reset => exact ruled_start ed.catalog ed.settings

/-! ### Runs -/

/-- The structure of a graph, told by its nodes and handles. -/
structure WellFormed (catalog : Catalog) (startId : String) (g : Graph) : Prop where
  ownId : ∀ id n, g.nodes.get? id = some n → n.id = id
  start : ∃ n, g.nodes.get? startId = some n ∧ n.mode = .triggered
  endpoints : ∀ e ∈ g.edges, g.nodes.contains e.wire.source = true ∧
    g.nodes.contains e.wire.target = true
  ids : (g.edges.map Edge.id).Nodup
  joins : ∀ e ∈ g.edges, Joins catalog g.nodes e
  oneIntoData : ∀ e ∈ g.edges, ∀ f ∈ g.edges, ∀ h,
    Handle.inspect g.nodes catalog e.wire.target e.wire.targetHandle .input = .ok (some h) →
    h.kind = .data → f.wire.target = e.wire.target →
    f.wire.targetHandle = e.wire.targetHandle → f = e
  oneFromControl : ∀ e ∈ g.edges, ∀ f ∈ g.edges, ∀ h,
    Handle.inspect g.nodes catalog e.wire.source e.wire.sourceHandle .output = .ok (some h) →
    h.kind = .control → f.wire.source = e.wire.source →
    f.wire.sourceHandle = e.wire.sourceHandle → f = e

theorem Joins.endpoints {nodes : Nodes} {e : Edge} (h : Joins catalog nodes e) :
    nodes.contains e.wire.source = true ∧ nodes.contains e.wire.target = true := by
  obtain ⟨s, t, hs, ht, -⟩ := h
  obtain ⟨_, n, _, -, -, hn, -⟩ := Handle.inspect_eq_some_iff.mp hs
  obtain ⟨_, m, _, -, -, hm, -⟩ := Handle.inspect_eq_some_iff.mp ht
  exact ⟨Table.contains_iff.mpr ⟨n, hn⟩, Table.contains_iff.mpr ⟨m, hm⟩⟩

theorem Joins.animated_iff_source {nodes : Nodes} {e : Edge} (h : Joins catalog nodes e)
    {x : Handle}
    (hx : Handle.inspect nodes catalog e.wire.source e.wire.sourceHandle .output = .ok (some x)) :
    e.animated = true ↔ x.kind = .control := by
  obtain ⟨s, t, hs, -, -, hanimated⟩ := h
  rw [hs, Except.ok.injEq, Option.some.injEq] at hx
  rw [hanimated, hx]

theorem Joins.animated_iff_target {nodes : Nodes} {e : Edge} (h : Joins catalog nodes e)
    {x : Handle}
    (hx : Handle.inspect nodes catalog e.wire.target e.wire.targetHandle .input = .ok (some x)) :
    e.animated = true ↔ x.kind = .control := by
  obtain ⟨s, t, -, ht, hkind, hanimated⟩ := h
  rw [ht, Except.ok.injEq, Option.some.injEq] at hx
  rw [hanimated, hkind, hx]

theorem Ruled.wellFormed (h : Ruled catalog startId g) : WellFormed catalog startId g where
  ownId := h.ownId
  start := h.start
  endpoints := fun e he => (h.joins e he).endpoints
  ids := h.ids
  joins := h.joins
  oneIntoData := by
    intro e he f hf x hx hkind htarget hhandle
    have hfx := hx
    rw [← htarget, ← hhandle] at hfx
    have hnot : ∀ a : Edge, (a.animated = true ↔ x.kind = .control) → a.animated = false := by
      intro a ha
      rw [hkind] at ha
      simpa using ha
    exact h.oneIn f hf e he (hnot f ((h.joins f hf).animated_iff_target hfx))
      (hnot e ((h.joins e he).animated_iff_target hx)) htarget hhandle
  oneFromControl := by
    intro e he f hf x hx hkind hsource hhandle
    have hfx := hx
    rw [← hsource, ← hhandle] at hfx
    exact h.oneOut f hf e he (((h.joins f hf).animated_iff_source hfx).mpr hkind)
      (((h.joins e he).animated_iff_source hx).mpr hkind) hsource hhandle

end Graph

namespace Session

theorem run_wellFormed (catalog : Catalog) (settings : Settings) (actions : List Action)
    (hguarded : ∀ a ∈ actions, a.guarded = true) :
    ((start catalog settings).run actions).editor.graph.WellFormed catalog settings.startId :=
  (run_graph_invariant Graph.ruled_step (Graph.ruled_start catalog settings) actions
    hguarded).wellFormed

/-! A run with a generic node: two data wires settle its parameter and carry it on, a route is
moved, and a snapshot is brought back after both were undone. -/

def samplePorts (ports : List (String × String)) : List Port :=
  ports.map fun p => { name := p.1, type := p.2, widget := .null, options := none }

def sampleType (inputs outputs : List (String × String)) (params : List String) : NodeType :=
  { title := "", category := "", inputs := samplePorts inputs, outputs := samplePorts outputs,
    params, mode := none, noTrigger := false, displays := [] }

def sampleCatalog : Catalog := Table.ofList [
  ("StartNode", sampleType [] [] []),
  ("Number", sampleType [] [("value", "int")] []),
  ("Box", sampleType [("item", "T")] [("box", "list<T>")] ["T"]),
  ("Show", sampleType [("any", "*")] [] [])]

def sampleRun : List Action := [
  .add "Number" .zero, .add "Box" .zero, .add "Show" .zero,
  .connect ⟨"1", some "value", "2", some "item"⟩, .connect ⟨"2", some "box", "3", some "any"⟩,
  .connect ⟨"start", some "_", "3", some "_"⟩, .snapshot "wired",
  .connect ⟨"start", some "_", "2", some "_"⟩, .resetBindings "2", .delete "3",
  .connect ⟨"2", some "box", "3", some "any"⟩, .restore "wired"]

theorem run_wellFormed_sample :
    (∀ a ∈ sampleRun, a.guarded = true) ∧
    let g := ((start sampleCatalog .standard).run sampleRun).editor.graph
    g.edges.map Edge.id =
      ["edge-1:value->2:item", "edge-2:box->3:any", "edge-start:_->3:_"] ∧
    g.WellFormed sampleCatalog "start" :=
  ⟨by decide, by decide +kernel, run_wellFormed sampleCatalog .standard sampleRun (by decide)⟩

end Session
end Patchbay
