import Patchbay.Proofs.Editor.Step

/-!
Where nodes and edges come from, for as long as no graph is loaded.  The nodes stand under the id of
the start node or under numbers (`Step.mem_keys`), and every edge was decided on, now or at some
earlier time (`Step.mem_edges`).

A session may keep a decision and install it when the graph has changed.  What is to hold of all
graphs then goes with something that holds of all decisions that are kept: `Session.Lasting` says
what has to be shown of the two, and `holds_run` what follows for every run.
-/

namespace Patchbay
namespace Editor

variable {allowed : Editor → Wire → Prop} {ed ed' : Editor}

theorem Step.mem_keys (h : ed.Step allowed ed') {id : String} (hid : id ∈ ed'.graph.nodes.keys) :
    id ∈ ed.graph.nodes.keys ∨ id = ed.settings.startId ∨ ∃ number : Nat, id = toString number := by
  have hput : ∀ {j : String} {m n : Node}, ed.graph.nodes.get? j = some m →
      id ∈ (ed.graph.nodes.insert j n).keys → id ∈ ed.graph.nodes.keys := by
    intro j m n hm hid
    rwa [Table.keys_insert_of_get? hm] at hid
  cases h with
  | stay => exact .inl hid
  | @place number n later named fresh bare =>
    obtain ⟨x, hx⟩ := Table.mem_keys_iff.mp hid
    by_cases hn : id = n.id
    · exact .inr (.inr ⟨number, hn.trans named⟩)
    · have hold : ed.graph.nodes.get? id = some x := by
        rw [← hx]
        exact (Table.get?_insert_of_ne _ hn n).symm
      exact .inl (Table.mem_keys_iff.mpr ⟨x, hold⟩)
  | delete notStart =>
    obtain ⟨x, hx⟩ := Table.mem_keys_iff.mp hid
    exact .inl (Table.mem_keys_iff.mpr ⟨x, Table.get?_eq_some_of_erase hx⟩)
  | setInputs found => exact .inl (hput found hid)
  | setMode found start => exact .inl (hput found hid)
  | unbind found => exact .inl (hput found hid)
  | connect decided isAllowed =>
    have hkeys : id ∈ (Decision.nodesAfter ed.graph.nodes _).keys := hid
    rw [Decision.keys_nodesAfter] at hkeys
    exact .inl hkeys
  | removeEdges => exact .inl hid
  | reset => exact .inr (.inl (List.mem_singleton.mp hid))

theorem Step.mem_edges (h : ed.Step allowed ed') {e : Edge} (he : e ∈ ed'.graph.edges) :
    e ∈ ed.graph.edges ∨ ∃ wire rebinding evicted,
      ed.decide ed.settings.theme wire = .ok (.accepted e rebinding evicted) := by
  cases h with
  | stay => exact .inl he
  | place later named fresh bare => exact .inl he
  | delete notStart => exact .inl (List.mem_filter.mp he).1
  | setInputs found => exact .inl he
  | setMode found start =>
    have hkept : e ∈ keptInMode ed.graph.edges _ _ _ := he
    unfold keptInMode at hkept
    split at hkept
    · exact .inl (List.mem_filter.mp hkept).1
    · exact .inl hkept
  | unbind found => exact .inl (List.mem_filter.mp he).1
  | connect decided isAllowed =>
    rcases List.mem_append.mp he with he | he
    · exact .inl (List.mem_filter.mp he).1
    · rw [List.mem_singleton.mp he]
      exact .inr ⟨_, _, _, decided⟩
  | removeEdges => exact .inl (List.mem_filter.mp he).1
  | reset => cases he

end Editor

/-! ### Decisions that are kept -/

/-- Whether an action takes a whole graph from elsewhere. -/
def Action.loads : Action → Bool
  | .load _ _ | .importDocument _ | .reload => true
  | _ => false

theorem Action.guarded_or_apply {a : Action} (ha : a.loads = false) :
    a.guarded = true ∨ ∃ name, a = .apply name := by
  cases a with
  | apply name => exact .inr ⟨name, rfl⟩
  | load nodes edges => cases ha
  | importDocument document => cases ha
  | reload => cases ha
  | _ => exact .inl rfl

namespace Session

theorem decisions_stepped {α : Type} (s : Session) (outcome : α → Outcome)
    (result : Except Fault (Change α)) :
    (s.stepped outcome result).session.decisions = s.decisions := by
  cases result <;> rfl

theorem decisions_validate (s : Session) (wire : Wire) (name : String) :
    (s.validate wire name).session.decisions = match s.editor.decide .standard wire with
      | .ok d => s.decisions.insert name d
      | .error _ => s.decisions := by
  obtain ⟨xs, h, -⟩ := s.editor.exists_gives_validate .standard wire
  rw [validate, h s.registry]
  rfl

/-- Only `validate` keeps a decision. -/
theorem decisions_perform (s : Session) {a : Action} (ha : a.loads = false) :
    (s.perform a).session.decisions = s.decisions ∨
    ∃ wire name d, s.editor.decide .standard wire = .ok d ∧
      (s.perform a).session.decisions = s.decisions.insert name d := by
  cases a with
  | validate wire name =>
    rw [perform, decisions_validate]
    cases hd : s.editor.decide .standard wire with
    | error f => exact .inl rfl
    | ok d => exact .inr ⟨wire, name, d, hd, rfl⟩
  | connect wire =>
    obtain ⟨xs, hconnect, -⟩ := s.connect_eq wire
    rw [perform, hconnect]
    exact .inl (decisions_stepped _ _ _)
  | restore name =>
    refine .inl ?_
    cases hg : s.snapshots.get? name <;> simp [perform, kept, hg, answered, changed, withEditor]
  | load nodes edges => cases ha
  | importDocument document => cases ha
  | reload => cases ha
  | add | duplicate | delete | setInputs | setMode | resetBindings | apply =>
    exact .inl (decisions_stepped s _ _)
  | look | handles | removeEdges | snapshot | reset | exportText | request | audit =>
    exact .inl rfl

/-- Applying a decision that is kept installs it, or changes nothing. -/
theorem perform_apply (s : Session) (name : String) :
    (s.perform (.apply name)).session = s ∨
    ∃ d, s.decisions.get? name = some d ∧
      (s.perform (.apply name)).session = s.withEditor (s.editor.install d) := by
  cases hd : s.decisions.get? name with
  | none => exact .inl (by simp [perform, kept, hd, stepped, Except.bind])
  | some d =>
    cases hc : s.editor.apply d with
    | error f => exact .inl (by simp [perform, kept, hd, hc, stepped, Except.bind])
    | ok c =>
      refine .inr ⟨d, rfl, ?_⟩
      rw [← Editor.editor_of_apply hc]
      simp [perform, kept, hd, hc, stepped, Except.bind]

/-- What is decided in a graph with `P` has `Q`, and what has `Q` can be installed in any graph with
`P`, also when that is no longer the graph it was decided in. -/
structure Lasting (catalog : Catalog) (settings : Settings) (P : Graph → Prop)
    (Q : Decision → Prop) : Prop where
  step : ∀ {ed ed' : Editor}, ed.catalog = catalog → ed.settings = settings → P ed.graph →
    ed.Step (fun _ _ => True) ed' → P ed'.graph
  decide : ∀ {ed : Editor} {theme : Theme} {wire : Wire} {d : Decision}, ed.catalog = catalog →
    P ed.graph → ed.decide theme wire = .ok d → Q d
  install : ∀ {ed : Editor} {d : Decision}, P ed.graph → Q d → P (ed.install d).graph

/-- `P` holds of the graph and of all that are kept, and `Q` of the decisions that are kept. -/
structure Holds (catalog : Catalog) (settings : Settings) (P : Graph → Prop) (Q : Decision → Prop)
    (s : Session) : Prop where
  keeps : Keeps catalog settings P s
  waiting : ∀ name d, s.decisions.get? name = some d → Q d

variable {catalog : Catalog} {settings : Settings} {P : Graph → Prop} {Q : Decision → Prop}
  {s : Session}

theorem keeps_apply (h : Lasting catalog settings P Q) (hs : s.Holds catalog settings P Q)
    (name : String) : Keeps catalog settings P (s.perform (.apply name)).session := by
  rcases perform_apply s name with hsame | ⟨d, hd, hinstalled⟩
  · rw [hsame]
    exact hs.keeps
  · rw [hinstalled]
    exact ⟨(Editor.catalog_install ..).trans hs.keeps.catalog_eq,
      (Editor.settings_install ..).trans hs.keeps.settings_eq,
      h.install hs.keeps.present (hs.waiting name d hd), hs.keeps.kept⟩

theorem holds_perform (h : Lasting catalog settings P Q) (hs : s.Holds catalog settings P Q)
    {a : Action} (ha : a.loads = false) : (s.perform a).session.Holds catalog settings P Q := by
  constructor
  · rcases Action.guarded_or_apply ha with hguarded | ⟨name, rfl⟩
    · exact keeps_perform h.step hs.keeps hguarded fun _ _ => trivial
    · exact keeps_apply h hs name
  · intro name d hd
    rcases decisions_perform s ha with hsame | ⟨wire, key, d', hd', hnew⟩
    · rw [hsame] at hd
      exact hs.waiting name d hd
    · rw [hnew, Table.get?_insert] at hd
      split at hd
      · obtain rfl : d' = d := by simpa using hd
        exact h.decide hs.keeps.catalog_eq hs.keeps.present hd'
      · exact hs.waiting name d hd

theorem holds_run (h : Lasting catalog settings P Q) (hs : s.Holds catalog settings P Q)
    (actions : List Action) (hloads : ∀ a ∈ actions, a.loads = false) :
    (s.run actions).Holds catalog settings P Q := by
  induction actions generalizing s with
  | nil => exact hs
  | cons a rest ih =>
    exact ih (holds_perform h hs (hloads a List.mem_cons_self))
      fun b hb => hloads b (List.mem_cons_of_mem a hb)

theorem holds_start (hstart : P (Editor.start catalog settings).graph) :
    (start catalog settings).Holds catalog settings P Q :=
  ⟨keeps_start hstart, fun name d hd => by cases hd⟩

end Session
end Patchbay
