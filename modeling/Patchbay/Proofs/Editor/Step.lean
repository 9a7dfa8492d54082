import Mathlib.Data.List.Nodup
import Patchbay.Editor.Session
import Patchbay.Proofs.Editor.Install

/-!
What one action can do to an editor.  `Editor.Step` lists the changes with all that is known when
they are made; `perform_guarded` says that an action which takes no foreign graph and no kept
decision makes one of them, or keeps or brings back a snapshot.  Invariants of sessions follow from
what one `Step` preserves, by `run_graph_invariant`.

A step is told with the wires that are `allowed` to be connected.  What is preserved only if no
other wire is ever connected holds after the runs that `Session.Connects` describes, by `keeps_run`.
-/

namespace Patchbay
namespace Editor

/-! ### Fresh ids -/

theorem toString_injective {m n : Nat} (h : toString m = toString n) : m = n := by
  rw [Nat.toString_eq_ofList_toDigits, Nat.toString_eq_ofList_toDigits] at h
  have hdigits : Nat.toDigits 10 m = Nat.toDigits 10 n := String.ofList_injective h
  rw [← Nat.ofDigitChars_ten_toDigits (n := m), hdigits, Nat.ofDigitChars_ten_toDigits]

theorem le_freeFrom (nodes : Nodes) (fuel n : Nat) : n ≤ freeFrom nodes fuel n := by
  induction fuel generalizing n with
  | zero => exact Nat.le_refl n
  | succ fuel ih =>
    rw [freeFrom]
    split
    · exact Nat.le_trans (Nat.le_succ n) (ih (n + 1))
    · exact Nat.le_refl n

theorem contains_of_lt_freeFrom {nodes : Nodes} {fuel n m : Nat} (hle : n ≤ m)
    (hlt : m < freeFrom nodes fuel n) : nodes.contains (toString m) = true := by
  induction fuel generalizing n with
  | zero => exact absurd hlt (Nat.not_lt.mpr hle)
  | succ fuel ih =>
    rw [freeFrom] at hlt
    split at hlt
    · next htaken =>
      by_cases hm : m = n
      · rwa [hm]
      · exact ih (by omega) hlt
    · exact absurd hlt (Nat.not_lt.mpr hle)

theorem freeFrom_eq_of_contains {nodes : Nodes} {fuel n : Nat}
    (h : nodes.contains (toString (freeFrom nodes fuel n)) = true) :
    freeFrom nodes fuel n = n + fuel := by
  induction fuel generalizing n with
  | zero => rfl
  | succ fuel ih =>
    rw [freeFrom] at h ⊢
    split at h
    · next htaken =>
      rw [if_pos htaken, ih h]
      omega
    · next hfree => exact absurd h hfree

/-- If the fuel ran out at a number in use, there would be more numbers in use than nodes. -/
theorem get?_freeId (ed : Editor) : ed.graph.nodes.get? (toString ed.freeId) = none := by
  rw [← Table.contains_eq_false_iff]
  by_contra hused
  rw [Bool.not_eq_false] at hused
  have hlast := freeFrom_eq_of_contains hused
  let used := (List.range' ed.nextId (ed.graph.nodes.entries.length + 1)).map (toString ·)
  have hnodup : used.Nodup :=
    List.Nodup.map (fun _ _ h => toString_injective h) (List.nodup_range' 1)
  have hsub : used ⊆ ed.graph.nodes.keys := by
    intro id hid
    obtain ⟨m, hm, rfl⟩ := List.mem_map.mp hid
    rw [List.mem_range'_1] at hm
    rw [Table.mem_keys_iff, ← Table.contains_iff]
    by_cases hm' : m < ed.freeId
    · exact contains_of_lt_freeFrom hm.1 hm'
    · have : m = ed.freeId := by
        have : ed.freeId = ed.nextId + ed.graph.nodes.entries.length := hlast
        omega
      rwa [this]
  have hlen := hnodup.length_le_of_subset hsub
  simp only [used, List.length_map, List.length_range', Table.keys] at hlen
  omega

/-! ### Steps -/

def keptInMode (edges : List Edge) (n : Node) (id : String) (mode : Mode) : List Edge :=
  if n.mode = .triggered ∧ mode ≠ .triggered then
    edges.filter fun e => !e.touches id (some triggerHandle)
  else edges

inductive Step (allowed : Editor → Wire → Prop) (ed : Editor) : Editor → Prop
  | stay : Step allowed ed ed
  | place {number : Nat} {n : Node} (later : ed.nextId ≤ number) (named : n.id = toString number)
      (fresh : ed.graph.nodes.get? n.id = none) (bare : n.bindings = ∅) :
      Step allowed ed { ed.withNode n with nextId := number + 1 }
  | delete {id : String} (notStart : id ≠ ed.settings.startId) :
      Step allowed ed ((ed.withNodes (ed.graph.nodes.erase id)).withEdges
        (ed.graph.edges.filter fun e => !e.meets id))
  | setInputs {id : String} {n : Node} {inputs : List (Value × Value)}
      (found : ed.graph.nodes.get? id = some n) : Step allowed ed (ed.putNode id { n with inputs })
  | setMode {id : String} {n : Node} {mode : Mode} (found : ed.graph.nodes.get? id = some n)
      (start : id = ed.settings.startId → mode = .triggered) :
      Step allowed ed
        ((ed.withEdges (keptInMode ed.graph.edges n id mode)).putNode id { n with mode })
  | unbind {id : String} {n : Node} (found : ed.graph.nodes.get? id = some n) :
      Step allowed ed
        ((ed.withEdges (ed.graph.edges.filter fun e => e.isRoute || !e.meets id)).putNode id
          { n with bindings := ∅ })
  | connect {wire : Wire} {edge : Edge} {rebinding : Option Rebinding} {evicted : List String}
      (decided : ed.decide ed.settings.theme wire = .ok (.accepted edge rebinding evicted))
      (isAllowed : allowed ed wire) :
      Step allowed ed ((ed.withNodes
        ((Decision.accepted edge rebinding evicted).nodesAfter ed.graph.nodes)).withEdges
        (keptBy ed.graph.edges edge evicted ++ [edge]))
  | removeEdges {ids : List String} : Step allowed ed (ed.removeEdges ids)
  | reset : Step allowed ed ed.reset

variable {allowed : Editor → Wire → Prop} {ed ed' : Editor}

theorem Step.catalog_eq (h : Step allowed ed ed') : ed'.catalog = ed.catalog := by
  cases h <;> rfl

theorem Step.settings_eq (h : Step allowed ed ed') : ed'.settings = ed.settings := by
  cases h <;> rfl

theorem node_eq_ok_iff {id : String} {n : Node} :
    ed.node id = .ok n ↔ ed.graph.nodes.get? id = some n := by
  unfold node
  cases ed.graph.nodes.get? id <;> simp

theorem step_of_place {make : String → Node} {c : Change Node}
    (hid : ∀ id, (make id).id = id) (hbare : ∀ id, (make id).bindings = ∅)
    (h : ed.place make = .ok c) : Step allowed ed c.editor := by
  unfold place at h
  simp only at h
  split at h
  · injection h with h
    rw [← h]
    refine .place (le_freeFrom _ _ _) (hid _) ?_ (hbare _)
    rw [hid]
    exact get?_freeId ed
  · cases h

theorem step_of_addNode {nodeType : String} {position : Position} {c : Change Node}
    (h : ed.addNode nodeType position = .ok c) : Step allowed ed c.editor := by
  unfold addNode at h
  split at h
  · cases h
  · exact step_of_place (fun _ => rfl) (fun _ => rfl) h

theorem step_of_duplicateNode {id : String} {c : Change Node}
    (h : ed.duplicateNode id = .ok c) : Step allowed ed c.editor := by
  unfold duplicateNode at h
  cases hn : ed.node id with
  | error f => simp [hn, bind, Except.bind] at h
  | ok n =>
    simp only [hn, bind, Except.bind] at h
    split at h
    · cases h
    · exact step_of_place (fun _ => rfl) (fun _ => rfl) h

theorem step_of_deleteNode {id : String} {c : Change Unit}
    (h : ed.deleteNode id = .ok c) : Step allowed ed c.editor := by
  unfold deleteNode at h
  split at h
  · cases h
  · next hstart =>
    cases hn : ed.node id with
    | error f => simp [hn, bind, Except.bind] at h
    | ok n =>
      simp only [hn, bind, Except.bind, pure, Except.pure, Except.ok.injEq] at h
      rw [← h]
      exact .delete hstart

theorem step_of_setInputs {id : String} {values : Value} {c : Change Node}
    (h : ed.setInputs id values = .ok c) : Step allowed ed c.editor := by
  unfold setInputs at h
  cases hn : ed.node id with
  | error f => simp [hn, bind, Except.bind] at h
  | ok n =>
    cases hv : values.toFields with
    | error m => simp [hn, hv, bind, Except.bind] at h
    | ok more =>
      simp only [hn, hv, bind, Except.bind, mapError_ok, pure, Except.pure,
        Except.ok.injEq] at h
      rw [← h]
      exact .setInputs (node_eq_ok_iff.mp hn)

theorem step_of_setMode {id : String} {mode : Mode} {c : Change Node}
    (h : ed.setMode id mode = .ok c) : Step allowed ed c.editor := by
  unfold setMode at h
  cases hn : ed.node id with
  | error f => simp [hn, bind, Except.bind] at h
  | ok n =>
    simp only [hn, bind, Except.bind, pure, Except.pure] at h
    split at h
    · cases h
    · next hstart =>
      have hstart' : id = ed.settings.startId → mode = .triggered := by
        intro hid
        by_cases hmode : mode = .triggered
        · exact hmode
        · exact absurd ⟨hid, hmode⟩ hstart
      have hstep : Step allowed ed _ := Step.setMode (node_eq_ok_iff.mp hn) hstart'
      unfold keptInMode at hstep
      split at h
      · next hleaves =>
        rw [if_pos hleaves] at hstep
        injection h with h
        rw [← h]
        exact hstep
      · next hstays =>
        rw [if_neg hstays] at hstep
        injection h with h
        rw [← h]
        exact hstep

theorem step_of_resetBindings {id : String} {c : Change Node}
    (h : ed.resetBindings id = .ok c) : Step allowed ed c.editor := by
  unfold resetBindings at h
  cases hn : ed.node id with
  | error f => simp [hn, bind, Except.bind] at h
  | ok n =>
    simp only [hn, bind, Except.bind, pure, Except.pure, Except.ok.injEq] at h
    rw [← h]
    exact .unbind (node_eq_ok_iff.mp hn)

theorem step_of_connect {wire : Wire} {c : Change Decision} (hallowed : allowed ed wire)
    (h : ed.connect wire = .ok c) : Step allowed ed c.editor := by
  obtain ⟨hd, hed⟩ := decide_of_connect h
  rw [hed]
  cases hresult : c.result with
  | rejected reason => exact .stay
  | accepted edge rebinding evicted =>
    rw [hresult] at hd
    exact .connect hd hallowed

end Editor

/-! ### Sessions -/

/-- Whether an action builds on the present graph by the rules of the editor.  Loading takes any
graph, and applying takes a decision that an earlier graph may have led to. -/
def Action.guarded : Action → Bool
  | .apply _ | .load _ _ | .importDocument _ | .reload => false
  | _ => true

def Action.wire? : Action → Option Wire
  | .connect wire => some wire
  | _ => none

namespace Session

def start (catalog : Catalog) (settings : Settings) : Session :=
  { editor := .start catalog settings }

/-- The session after actions, the first one first.  Faults and rejections are part of a run. -/
def run (s : Session) (actions : List Action) : Session :=
  actions.foldl (fun s a => (s.perform a).session) s

/-- Every wire that a run asks to connect is allowed at the time. -/
def Connects (allowed : Editor → Wire → Prop) (s : Session) : List Action → Prop
  | [] => True
  | a :: rest =>
    (∀ wire ∈ a.wire?, allowed s.editor wire) ∧ Connects allowed (s.perform a).session rest

instance decidableConnects (allowed : Editor → Wire → Prop)
    [∀ ed wire, Decidable (allowed ed wire)] :
    (s : Session) → (actions : List Action) → Decidable (s.Connects allowed actions)
  | _, [] => .isTrue trivial
  | s, a :: rest =>
    have := decidableConnects allowed (s.perform a).session rest
    inferInstanceAs (Decidable (_ ∧ _))

variable {allowed : Editor → Wire → Prop}

theorem connects_of_forall (h : ∀ ed wire, allowed ed wire) (s : Session) (actions : List Action) :
    s.Connects allowed actions := by
  induction actions generalizing s with
  | nil => trivial
  | cons a rest ih => exact ⟨fun wire _ => h s.editor wire, ih _⟩

theorem step_of_stepped {α : Type} {s : Session} {outcome : α → Outcome}
    {result : Except Fault (Change α)}
    (h : ∀ c, result = .ok c → s.editor.Step allowed c.editor) :
    s.editor.Step allowed (s.stepped outcome result).session.editor ∧
      (s.stepped outcome result).session.snapshots = s.snapshots := by
  cases result with
  | error f => exact ⟨.stay, rfl⟩
  | ok c => exact ⟨h c rfl, rfl⟩

/-- A session connects as its editor does, and takes the samples.  A fault has none. -/
theorem connect_eq (s : Session) (wire : Wire) : ∃ xs,
    s.connect wire = (s.withRegistry (s.registry.recordAll xs)).stepped .decision
      (s.editor.connect wire) ∧
    ∀ f, s.editor.connect wire = .error f → xs = [] := by
  obtain ⟨xs, h, hnil⟩ := s.editor.exists_gives_connect wire
  refine ⟨xs, ?_, hnil⟩
  rw [connect, h s.registry]

/-- A guarded action takes one step, keeps the graph under a name, or brings back a graph that was
kept. -/
theorem perform_guarded {s : Session} {a : Action} (ha : a.guarded = true)
    (hallowed : ∀ wire ∈ a.wire?, allowed s.editor wire) :
    (s.editor.Step allowed (s.perform a).session.editor ∧
      (s.perform a).session.snapshots = s.snapshots) ∨
    (∃ name, (s.perform a).session.editor = s.editor ∧
      (s.perform a).session.snapshots = s.snapshots.insert name s.editor.graph) ∨
    ∃ name g, s.snapshots.get? name = some g ∧
      (s.perform a).session.editor = s.editor.restore g ∧
      (s.perform a).session.snapshots = s.snapshots := by
  cases a with
  | add nodeType position => exact .inl (step_of_stepped fun _ => Editor.step_of_addNode)
  | look id => exact .inl ⟨.stay, rfl⟩
  | duplicate id => exact .inl (step_of_stepped fun _ => Editor.step_of_duplicateNode)
  | delete id => exact .inl (step_of_stepped fun _ => Editor.step_of_deleteNode)
  | setInputs id values => exact .inl (step_of_stepped fun _ => Editor.step_of_setInputs)
  | setMode id mode =>
    refine .inl (step_of_stepped fun c hc => ?_)
    cases hm : Mode.ofValue mode with
    | error f => simp [hm, Except.bind] at hc
    | ok m =>
      rw [hm] at hc
      exact Editor.step_of_setMode hc
  | resetBindings id => exact .inl (step_of_stepped fun _ => Editor.step_of_resetBindings)
  | handles id side => exact .inl ⟨.stay, rfl⟩
  | connect wire =>
    obtain ⟨xs, hconnect, -⟩ := s.connect_eq wire
    rw [perform, hconnect]
    exact .inl (step_of_stepped (s := s.withRegistry (s.registry.recordAll xs))
      fun _ => Editor.step_of_connect (hallowed wire rfl))
  | validate wire name => exact .inl ⟨.stay, rfl⟩
  | apply name => cases ha
  | removeEdges ids => exact .inl ⟨.removeEdges, rfl⟩
  | snapshot name => exact .inr (.inl ⟨name, rfl, rfl⟩)
  | restore name =>
    cases hg : s.snapshots.get? name with
    | none => exact .inl (by simp [perform, kept, hg, answered, Editor.Step.stay])
    | some g => exact .inr (.inr ⟨name, g, hg, by simp [perform, kept, hg, changed, withEditor]⟩)
  | reset => exact .inl ⟨.reset, rfl⟩
  | load nodes edges => cases ha
  | importDocument document => cases ha
  | reload => cases ha
  | exportText => exact .inl ⟨.stay, rfl⟩
  | request => exact .inl ⟨.stay, rfl⟩
  | audit => exact .inl ⟨.stay, rfl⟩

/-- What holds of the graph and of every graph that is kept. -/
structure Keeps (catalog : Catalog) (settings : Settings) (P : Graph → Prop) (s : Session) :
    Prop where
  catalog_eq : s.editor.catalog = catalog
  settings_eq : s.editor.settings = settings
  present : P s.editor.graph
  kept : ∀ name g, s.snapshots.get? name = some g → P g

variable {catalog : Catalog} {settings : Settings} {P : Graph → Prop}

theorem keeps_perform
    (hstep : ∀ {ed ed' : Editor}, ed.catalog = catalog → ed.settings = settings → P ed.graph →
      ed.Step allowed ed' → P ed'.graph)
    {s : Session} (hs : Keeps catalog settings P s) {a : Action} (ha : a.guarded = true)
    (hallowed : ∀ wire ∈ a.wire?, allowed s.editor wire) :
    Keeps catalog settings P (s.perform a).session := by
  rcases perform_guarded ha hallowed with ⟨h, hsnap⟩ | ⟨name, hed, hsnap⟩ |
    ⟨name, g, hg, hed, hsnap⟩
  · refine ⟨h.catalog_eq.trans hs.catalog_eq, h.settings_eq.trans hs.settings_eq,
      hstep hs.catalog_eq hs.settings_eq hs.present h, ?_⟩
    rw [hsnap]
    exact hs.kept
  · refine ⟨hed ▸ hs.catalog_eq, hed ▸ hs.settings_eq, hed ▸ hs.present, ?_⟩
    rw [hsnap]
    intro name' g hg
    rw [Table.get?_insert] at hg
    split at hg
    · injection hg with hg
      exact hg ▸ hs.present
    · exact hs.kept name' g hg
  · refine ⟨?_, ?_, ?_, ?_⟩
    · rw [hed]
      exact hs.catalog_eq
    · rw [hed]
      exact hs.settings_eq
    · rw [hed]
      exact hs.kept name g hg
    · rw [hsnap]
      exact hs.kept

theorem keeps_run
    (hstep : ∀ {ed ed' : Editor}, ed.catalog = catalog → ed.settings = settings → P ed.graph →
      ed.Step allowed ed' → P ed'.graph)
    (actions : List Action) (hguarded : ∀ a ∈ actions, a.guarded = true) {s : Session}
    (hconnects : s.Connects allowed actions) (hs : Keeps catalog settings P s) :
    Keeps catalog settings P (s.run actions) := by
  induction actions generalizing s with
  | nil => exact hs
  | cons a rest ih =>
    exact ih (fun b hb => hguarded b (List.mem_cons_of_mem a hb)) hconnects.2
      (keeps_perform hstep hs (hguarded a List.mem_cons_self) hconnects.1)

theorem keeps_start (hstart : P (Editor.start catalog settings).graph) :
    Keeps catalog settings P (start catalog settings) :=
  ⟨rfl, rfl, hstart, fun name g hg => by cases hg⟩

/-- What holds at the start and is kept by every step holds after every guarded run. -/
theorem run_graph_invariant
    (hstep : ∀ {ed ed' : Editor}, ed.catalog = catalog → ed.settings = settings → P ed.graph →
      ed.Step (fun _ _ => True) ed' → P ed'.graph)
    (hstart : P (Editor.start catalog settings).graph) (actions : List Action)
    (hguarded : ∀ a ∈ actions, a.guarded = true) :
    P ((start catalog settings).run actions).editor.graph :=
  (keeps_run hstep actions hguarded (connects_of_forall (fun _ _ => trivial) _ _)
    (keeps_start hstart)).present

end Session
end Patchbay
