import Patchbay.Editor.Basic
import Patchbay.Proofs.Graph.Decision

/-!
Decisions in the graph.  `install` is what becomes of an editor by a decision; a wire is connected
by a decision on the present graph and its installation, which cannot fail (`decide_of_connect`,
`exists_connect_of_decide`).

A decision names the edges that go by their ids.  Where it was made for the graph that it is
installed in, these are the ids of the edges that the new one displaces, so the edges after it are
told without them (`install_eq`).
-/

namespace Patchbay

/-! ### The edges after a new one -/

namespace Edge

variable {edges : List Edge} {new e : Edge}

/-- No edge of its id has to go for the new one, and it has another id than the new one. -/
def stays (edges : List Edge) (new e : Edge) : Bool :=
  !((edges.filter new.displaces).map Edge.id).contains e.id && e.id != new.id

def rewired (edges : List Edge) (new : Edge) : List Edge := edges.filter (stays edges new) ++ [new]

theorem stays_iff : stays edges new e = true ↔
    (∀ f ∈ edges, new.displaces f = true → f.id ≠ e.id) ∧ e.id ≠ new.id := by
  simp [stays]

end Edge

namespace Decision

variable {theme : Theme} {catalog : Catalog} {nodes : Nodes} {edges : List Edge} {w : Wire}
  {d : Decision}

def edgesAfter (edges : List Edge) : Decision → List Edge
  | .rejected _ => edges
  | .accepted edge _ _ => Edge.rewired edges edge

theorem edgesAfter_among (edges edges' : List Edge) (d : Decision) :
    (d.among edges').edgesAfter edges = d.edgesAfter edges := by
  cases d <;> rfl

theorem nodesAfter_among (nodes : Nodes) (edges : List Edge) (d : Decision) :
    (d.among edges).nodesAfter nodes = d.nodesAfter nodes := by
  cases d with
  | rejected reason => rfl
  | accepted edge rebinding evicted => cases rebinding <;> rfl

theorem among_self (hd : make theme catalog nodes edges w = .ok d) : d.among edges = d := by
  have hself := make_among theme catalog nodes edges edges w
  rw [hd] at hself
  exact (Except.ok.inj hself).symm

/-- A decision makes no node. -/
theorem keys_nodesAfter (nodes : Nodes) (d : Decision) :
    (d.nodesAfter nodes).keys = nodes.keys := by
  cases d with
  | rejected reason => rfl
  | accepted edge rebinding evicted =>
    cases rebinding with
    | none => rfl
    | some r =>
      cases hr : nodes.get? r.node with
      | none => simp only [nodesAfter, rebind, hr, Option.map_none, Option.getD_none]
      | some n =>
        simp only [nodesAfter, rebind, hr, Option.map_some, Option.getD_some]
        exact Table.keys_insert_of_get? hr _

end Decision

namespace Editor

variable {ed : Editor} {theme : Theme} {wire : Wire} {d : Decision}

def keptBy (edges : List Edge) (edge : Edge) (evicted : List String) : List Edge :=
  edges.filter fun e => !evicted.contains e.id && e.id != edge.id

def install (ed : Editor) : Decision → Editor
  | .rejected _ => ed
  | .accepted edge rebinding evicted =>
    (ed.withNodes ((Decision.accepted edge rebinding evicted).nodesAfter ed.graph.nodes)).withEdges
      (keptBy ed.graph.edges edge evicted ++ [edge])

theorem catalog_install (ed : Editor) (d : Decision) : (ed.install d).catalog = ed.catalog := by
  cases d <;> rfl

theorem settings_install (ed : Editor) (d : Decision) : (ed.install d).settings = ed.settings := by
  cases d <;> rfl

theorem nodes_install (ed : Editor) (d : Decision) :
    (ed.install d).graph.nodes = d.nodesAfter ed.graph.nodes := by
  cases d <;> rfl

theorem mem_edges_install {e : Edge} (he : e ∈ (ed.install d).graph.edges) :
    e ∈ ed.graph.edges ∨ ∃ rebinding evicted, d = .accepted e rebinding evicted := by
  cases d with
  | rejected reason => exact .inl he
  | accepted edge rebinding evicted =>
    rcases List.mem_append.mp he with he | he
    · exact .inl (List.mem_filter.mp he).1
    · rw [List.mem_singleton.mp he]
      exact .inr ⟨rebinding, evicted, rfl⟩

theorem install_eq (hd : ed.decide theme wire = .ok d) :
    ed.install d =
      (ed.withNodes (d.nodesAfter ed.graph.nodes)).withEdges (d.edgesAfter ed.graph.edges) := by
  rw [← Decision.among_self hd]
  cases d <;> rfl

/-! ### Applying and connecting -/

theorem editor_of_apply {c : Change Unit} (h : ed.apply d = .ok c) : c.editor = ed.install d := by
  cases d with
  | rejected reason =>
    cases h
    rfl
  | accepted edge rebinding evicted =>
    cases rebinding with
    | none =>
      cases h
      rfl
    | some r =>
      cases hr : Decision.rebind ed.graph.nodes r with
      | none => simp [apply, hr, bind, Except.bind] at h
      | some nodes =>
        simp only [apply, hr, bind, Except.bind, pure, Except.pure, Except.ok.injEq] at h
        simp only [install, Decision.nodesAfter, hr, Option.getD_some]
        rw [← h]
        rfl

/-- A decision can be installed in the graph that it was made for: the node with new bindings is
there. -/
theorem exists_apply_of_decide (hd : ed.decide theme wire = .ok d) : ∃ c, ed.apply d = .ok c := by
  cases d with
  | rejected reason => exact ⟨_, rfl⟩
  | accepted edge rebinding evicted =>
    cases rebinding with
    | none => exact ⟨_, rfl⟩
    | some r =>
      obtain ⟨-, n, -, hn⟩ := Decision.exists_end_of_rebinding hd
      simp only [apply, Decision.rebind, hn, Option.map_some, ok_bind]
      exact ⟨_, rfl⟩

theorem exists_gives_validate (ed : Editor) (theme : Theme) (wire : Wire) :
    ∃ xs, (ed.validate theme wire).Gives (ed.decide theme wire) xs ∧
      ∀ f, ed.decide theme wire = .error f → xs = [] := by
  obtain ⟨a, xs, h⟩ :=
    Decision.exists_course theme ed.catalog ed.graph.nodes ed.graph.edges wire
  have hdecide : ed.decide theme wire = a := h.gives.result_eq
  rw [hdecide]
  refine ⟨xs, h.gives, fun f hf => ?_⟩
  subst hf
  exact h.eq_nil_of_fault

/-- Connecting records what the decision records, and installing it cannot fail. -/
theorem exists_gives_attach {xs : List Sample}
    (h : (ed.validate ed.settings.theme wire).Gives (.ok d) xs) :
    ∃ c, (ed.attach wire).Gives (.ok c) xs ∧ c.result = d ∧ c.editor = ed.install d := by
  have hd : ed.decide ed.settings.theme wire = .ok d := h.result_eq
  obtain ⟨c, hc⟩ := exists_apply_of_decide hd
  refine ⟨{ editor := c.editor, result := d, log := c.log }, ?_, rfl, editor_of_apply hc⟩
  rw [← List.append_nil xs]
  refine h.bind ?_
  rw [hc]
  exact (Metered.Gives.lift (.ok c)).bind_pure _

theorem exists_connect_of_decide (hd : ed.decide ed.settings.theme wire = .ok d) :
    ∃ c, ed.connect wire = .ok c ∧ c.result = d ∧ c.editor = ed.install d := by
  obtain ⟨xs, h, -⟩ := exists_gives_validate ed ed.settings.theme wire
  rw [hd] at h
  obtain ⟨c, hc, hresult, hed⟩ := exists_gives_attach h
  exact ⟨c, hc.result_eq, hresult, hed⟩

theorem connect_of_decide_error {f : Fault} (hd : ed.decide ed.settings.theme wire = .error f) :
    ed.connect wire = .error f := by
  obtain ⟨xs, h, -⟩ := exists_gives_validate ed ed.settings.theme wire
  rw [hd] at h
  exact h.bind_error.result_eq

/-- What connecting gives, and that a fault of it leaves nothing in the registry. -/
theorem exists_gives_connect (ed : Editor) (wire : Wire) :
    ∃ xs, (ed.attach wire).Gives (ed.connect wire) xs ∧
      ∀ f, ed.connect wire = .error f → xs = [] := by
  obtain ⟨xs, h, hnil⟩ := exists_gives_validate ed ed.settings.theme wire
  cases hd : ed.decide ed.settings.theme wire with
  | error f =>
    rw [hd] at h
    rw [connect_of_decide_error hd]
    exact ⟨xs, h.bind_error, fun _ _ => hnil f hd⟩
  | ok d =>
    rw [hd] at h
    obtain ⟨c, hc, -⟩ := exists_gives_attach h
    rw [show ed.connect wire = .ok c from hc.result_eq]
    exact ⟨xs, hc, fun f hf => by cases hf⟩

theorem decide_of_connect {c : Change Decision} (h : ed.connect wire = .ok c) :
    ed.decide ed.settings.theme wire = .ok c.result ∧ c.editor = ed.install c.result := by
  cases hd : ed.decide ed.settings.theme wire with
  | error f =>
    rw [connect_of_decide_error hd] at h
    cases h
  | ok d =>
    obtain ⟨c', hc', rfl, hed⟩ := exists_connect_of_decide hd
    obtain rfl := Except.ok.inj (hc'.symm.trans h)
    exact ⟨rfl, hed⟩

end Editor
end Patchbay
