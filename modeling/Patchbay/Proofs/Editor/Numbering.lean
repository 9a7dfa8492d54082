import Patchbay.Proofs.Editor.Origin
import Patchbay.Proofs.Editor.Structure
import Patchbay.Proofs.Number.Integer

/-!
Numbers as ids.  The counter of an editor only grows until the graph is reset or another one is
loaded; bringing back a snapshot leaves it where it is.  A new node gets the first number from the
counter on that is no id, and the counter goes behind it.  So the numbers of a run are increasing,
whatever becomes of the nodes, and they are behind every number that a loaded graph has for an id.

The number has to be written.  After a load of ids that are not too long that fails only in runs
that pass over more numbers than any graph has nodes; `Session.passed` counts them.
-/

namespace Patchbay

/-! ### The counter after a load -/

namespace Editor

/-- What an id counts for the next number; what is no number, and what is negative, counts zero. -/
def idNumber (id : String) : Nat := ((Value.integerOfText id).toOption.map Int.toNat).getD 0

theorem idNumber_of_ok {id : String} {k : Int} (h : Value.integerOfText id = .ok k) :
    idNumber id = k.toNat := by
  rw [idNumber, h]
  rfl

theorem nextIdOf_eq (ids : List String) :
    nextIdOf ids = ids.foldl (fun highest id => max highest (idNumber id)) 0 + 1 := by
  unfold nextIdOf
  congr 1
  apply List.foldl_ext
  intro highest id _
  unfold idNumber
  cases Value.integerOfText id with
  | ok k => rfl
  | error m => exact (Nat.max_zero highest).symm

theorem foldl_max_le_iff {ids : List String} {least bound : Nat} :
    ids.foldl (fun highest id => max highest (idNumber id)) least ≤ bound ↔
      least ≤ bound ∧ ∀ id ∈ ids, idNumber id ≤ bound := by
  induction ids generalizing least with
  | nil => simp
  | cons id rest ih =>
    rw [List.foldl_cons, ih, List.forall_mem_cons, Nat.max_le, and_assoc]

theorem lt_nextIdOf {ids : List String} {id : String} {k : Int} (hid : id ∈ ids)
    (hk : Value.integerOfText id = .ok k) : k < nextIdOf ids := by
  have hle : idNumber id ≤ ids.foldl (fun highest id => max highest (idNumber id)) 0 :=
    (foldl_max_le_iff.mp (Nat.le_refl _)).2 id hid
  rw [idNumber_of_ok hk] at hle
  rw [nextIdOf_eq]
  omega

theorem nextIdOf_le {ids : List String} {bound : Nat} (hpos : 0 < bound)
    (h : ∀ id ∈ ids, ∀ k, Value.integerOfText id = .ok k → k < bound) : nextIdOf ids ≤ bound := by
  have hle : ids.foldl (fun highest id => max highest (idNumber id)) 0 ≤ bound - 1 := by
    refine foldl_max_le_iff.mpr ⟨Nat.zero_le _, fun id hid => ?_⟩
    cases hk : Value.integerOfText id with
    | ok k =>
      have hlt := h id hid k hk
      rw [idNumber_of_ok hk]
      omega
    | error m =>
      rw [idNumber, hk]
      exact Nat.zero_le _
  rw [nextIdOf_eq]
  omega

/-- Of two nodes with one id the later is loaded, so no id is lost. -/
theorem mem_loadedIds {nodes : List Node} {id : String} :
    id ∈ (Nodes.ofList nodes).values.map Node.id ↔ id ∈ nodes.map Node.id := by
  have hown : ∀ e ∈ (Nodes.ofList nodes).entries, e.2 ∈ nodes ∧ e.1 = e.2.id := by
    intro e he
    obtain ⟨n, hn, rfl⟩ := List.mem_map.mp (Table.mem_ofList he)
    exact ⟨hn, rfl⟩
  constructor
  · intro h
    obtain ⟨n, hn, rfl⟩ := List.mem_map.mp h
    obtain ⟨e, he, rfl⟩ := List.mem_map.mp hn
    exact List.mem_map_of_mem (hown e he).1
  · intro h
    have hkey : id ∈ (Nodes.ofList nodes).keys := by
      rw [Nodes.ofList, Table.mem_keys_ofList, List.map_map]
      exact h
    obtain ⟨e, he, rfl⟩ := List.mem_map.mp hkey
    rw [(hown e he).2]
    exact List.mem_map_of_mem (List.mem_map_of_mem he)

/-! ### New nodes -/

variable {ed ed' : Editor} {n : Node}

/-- One node more, under an id that was not in use, and all else as it was. -/
structure Gains (ed ed' : Editor) (n : Node) : Prop where
  fresh : ed.graph.nodes.get? n.id = none
  stored : ed'.graph.nodes.get? n.id = some n
  others : ∀ id, id ≠ n.id → ed'.graph.nodes.get? id = ed.graph.nodes.get? id
  edges : ed'.graph.edges = ed.graph.edges

/-- A node was given the first number that is free, and the counter goes behind it. -/
structure Places (ed : Editor) (c : Change Node) : Prop where
  written : ed.freeId < Nat.pow 10 Number.maxIntegerDigits
  named : c.result.id = toString ed.freeId
  editor : c.editor = { ed.withNode c.result with nextId := ed.freeId + 1 }

theorem le_freeId (ed : Editor) : ed.nextId ≤ ed.freeId := le_freeFrom ..

theorem freeFrom_le (nodes : Nodes) (fuel number : Nat) :
    freeFrom nodes fuel number ≤ number + fuel := by
  induction fuel generalizing number with
  | zero => exact Nat.le_refl number
  | succ fuel ih =>
    rw [freeFrom]
    split
    · exact Nat.le_trans (ih (number + 1)) (by omega)
    · omega

theorem freeId_le (ed : Editor) : ed.freeId ≤ ed.nextId + ed.graph.nodes.entries.length :=
  freeFrom_le ..

theorem Places.gains {c : Change Node} (h : ed.Places c) : ed.Gains c.editor c.result := by
  have hfresh : ed.graph.nodes.get? c.result.id = none := by
    rw [h.named]
    exact get?_freeId ed
  rw [h.editor]
  exact ⟨hfresh, Table.get?_insert_self .., fun id hid => Table.get?_insert_of_ne _ hid _, rfl⟩

theorem places_place {make : String → Node} (hid : ∀ id, (make id).id = id) :
    ResultsIn ed.Places (ed.place make) := by
  unfold place
  simp only
  split
  · next hwritten => exact .ok ⟨hwritten, hid _, rfl⟩
  · exact .error _

theorem places_addNode (nodeType : String) (position : Position) :
    ResultsIn ed.Places (ed.addNode nodeType position) := by
  unfold addNode
  split
  · exact .error _
  · exact places_place fun _ => rfl

theorem places_duplicateNode (id : String) : ResultsIn ed.Places (ed.duplicateNode id) := by
  unfold duplicateNode
  refine .bind fun n _ => ?_
  split
  · exact .error _
  · exact places_place fun _ => rfl

theorem exists_place (make : String → Node)
    (h : ed.freeId < Nat.pow 10 Number.maxIntegerDigits) : ∃ c, ed.place make = .ok c := by
  unfold place
  exact ⟨_, if_pos h⟩

theorem exists_addNode {nodeType : String} {t : NodeType} (ht : ed.catalog.get? nodeType = some t)
    (h : ed.freeId < Nat.pow 10 Number.maxIntegerDigits) (position : Position) :
    ∃ c, ed.addNode nodeType position = .ok c := by
  unfold addNode
  rw [ht]
  exact exists_place _ h

theorem exists_duplicateNode {id : String} (hn : ed.graph.nodes.get? id = some n)
    (hstart : id ≠ ed.settings.startId) (h : ed.freeId < Nat.pow 10 Number.maxIntegerDigits) :
    ∃ c, ed.duplicateNode id = .ok c := by
  unfold duplicateNode
  rw [node_eq_ok_iff.mpr hn, ok_bind, if_neg hstart]
  exact exists_place _ h

/-! ### Steps that place no node -/

theorem nextId_deleteNode (id : String) :
    ResultsIn (fun c => c.editor.nextId = ed.nextId) (ed.deleteNode id) := by
  unfold deleteNode
  split
  · exact .error _
  · exact .bind fun _ _ => .ok rfl

theorem nextId_setInputs (id : String) (values : Value) :
    ResultsIn (fun c => c.editor.nextId = ed.nextId) (ed.setInputs id values) :=
  .bind fun _ _ => .bind fun _ _ => .ok rfl

theorem nextId_setMode (id : String) (mode : Mode) :
    ResultsIn (fun c => c.editor.nextId = ed.nextId) (ed.setMode id mode) := by
  refine .bind fun n _ => ?_
  split
  · exact .error _
  · split <;> exact .ok rfl

theorem nextId_resetBindings (id : String) :
    ResultsIn (fun c => c.editor.nextId = ed.nextId) (ed.resetBindings id) :=
  .bind fun _ _ => .ok rfl

theorem nextId_install (ed : Editor) (d : Decision) : (ed.install d).nextId = ed.nextId := by
  cases d <;> rfl

end Editor

/-! ### Actions -/

def Action.renumbers : Action → Bool
  | .reset => true
  | a => a.loads

/-- Whether the present graph lets an action place a node. -/
def Action.mayPlace (ed : Editor) : Action → Bool
  | .add nodeType _ => ed.catalog.contains nodeType
  | .duplicate id => ed.graph.nodes.contains id && id != ed.settings.startId
  | _ => false

namespace Session

variable {s : Session} {a : Action} {n : Node}

def placed (s : Session) (a : Action) : Option Node :=
  match a, (s.perform a).result with
  | .add _ _, .ok (.node n) => some n
  | .duplicate _, .ok (.node n) => some n
  | _, _ => none

def placements (s : Session) : List Action → List Node
  | [] => []
  | a :: rest => (s.placed a).toList ++ placements (s.perform a).session rest

theorem nextId_stepped {α : Type} {outcome : α → Outcome} {result : Except Fault (Change α)}
    (h : ResultsIn (fun c => c.editor.nextId = s.editor.nextId) result) :
    (s.stepped outcome result).session.editor.nextId = s.editor.nextId := by
  cases result with
  | error f => rfl
  | ok c => exact h c rfl

theorem nextId_connect (s : Session) (wire : Wire) :
    (s.connect wire).session.editor.nextId = s.editor.nextId := by
  obtain ⟨xs, hconnect, -⟩ := s.connect_eq wire
  rw [hconnect]
  refine nextId_stepped (s := s.withRegistry (s.registry.recordAll xs)) fun c hc => ?_
  show c.editor.nextId = s.editor.nextId
  rw [(Editor.decide_of_connect hc).2, Editor.nextId_install]

/-- An action that does not set the counter places a node, or leaves the counter alone. -/
theorem perform_places_or_keeps (s : Session) (ha : a.renumbers = false) :
    (s.placed a = none ∧ (s.perform a).session.editor.nextId = s.editor.nextId) ∨
    ∃ c, s.editor.Places c ∧ s.placed a = some c.result ∧
      (s.perform a).session.editor = c.editor := by
  cases a with
  | add nodeType position =>
    cases hc : s.editor.addNode nodeType position with
    | error f => exact .inl (by simp [placed, perform, hc, stepped])
    | ok c =>
      refine .inr ⟨c, Editor.places_addNode nodeType position c hc, ?_⟩
      simp [placed, perform, hc, stepped, withEditor]
  | duplicate id =>
    cases hc : s.editor.duplicateNode id with
    | error f => exact .inl (by simp [placed, perform, hc, stepped])
    | ok c =>
      refine .inr ⟨c, Editor.places_duplicateNode id c hc, ?_⟩
      simp [placed, perform, hc, stepped, withEditor]
  | delete id => exact .inl ⟨rfl, nextId_stepped (Editor.nextId_deleteNode id)⟩
  | setInputs id values => exact .inl ⟨rfl, nextId_stepped (Editor.nextId_setInputs id values)⟩
  | setMode id mode =>
    exact .inl ⟨rfl, nextId_stepped (.bind fun m _ => Editor.nextId_setMode id m)⟩
  | resetBindings id => exact .inl ⟨rfl, nextId_stepped (Editor.nextId_resetBindings id)⟩
  | connect wire => exact .inl ⟨rfl, nextId_connect s wire⟩
  | apply name =>
    refine .inl ⟨rfl, ?_⟩
    rcases perform_apply s name with hsame | ⟨d, -, hinstalled⟩
    · rw [hsame]
    · rw [hinstalled]
      exact Editor.nextId_install s.editor d
  | restore name =>
    refine .inl ⟨rfl, ?_⟩
    cases hg : s.snapshots.get? name <;>
      simp [perform, kept, hg, answered, changed, withEditor, Editor.restore]
  | reset | load | importDocument | reload => cases ha
  | look | handles | validate | removeEdges | snapshot | exportText | request | audit =>
    exact .inl ⟨rfl, rfl⟩

theorem exists_placed (ha : a.mayPlace s.editor = true)
    (h : s.editor.freeId < Nat.pow 10 Number.maxIntegerDigits) : ∃ n, s.placed a = some n := by
  cases a with
  | add nodeType position =>
    obtain ⟨t, ht⟩ := Table.contains_iff.mp ha
    obtain ⟨c, hc⟩ := Editor.exists_addNode ht h position
    exact ⟨c.result, by simp [placed, perform, hc, stepped]⟩
  | duplicate id =>
    simp only [Action.mayPlace, Bool.and_eq_true, bne_iff_ne] at ha
    obtain ⟨n, hn⟩ := Table.contains_iff.mp ha.1
    obtain ⟨c, hc⟩ := Editor.exists_duplicateNode hn ha.2 h
    exact ⟨c.result, by simp [placed, perform, hc, stepped]⟩
  | _ => cases ha

/-! ### Runs -/

/-- What the counter can grow by in a run: each action passes over no more numbers than there are
nodes, and takes one. -/
def passed (s : Session) : List Action → Nat
  | [] => 0
  | a :: rest => s.editor.graph.nodes.entries.length + 1 + passed (s.perform a).session rest

theorem passed_concat (actions : List Action) (a : Action) (s : Session) :
    s.passed (actions ++ [a]) =
      s.passed actions + ((s.run actions).editor.graph.nodes.entries.length + 1) := by
  induction actions generalizing s with
  | nil => simp [passed, run]
  | cons b rest ih =>
    have hrest := ih (s.perform b).session
    have hrun : (s.perform b).session.run rest = s.run (b :: rest) := rfl
    rw [List.cons_append, passed, passed, hrest, hrun]
    omega

theorem run_concat (s : Session) (actions : List Action) (a : Action) :
    s.run (actions ++ [a]) = ((s.run actions).perform a).session := by
  simp [run]

theorem nextId_run_le (actions : List Action) (hkeep : ∀ a ∈ actions, a.renumbers = false)
    (s : Session) : (s.run actions).editor.nextId ≤ s.editor.nextId + s.passed actions := by
  induction actions generalizing s with
  | nil => exact Nat.le_refl _
  | cons a rest ih =>
    have hrest := ih (fun b hb => hkeep b (List.mem_cons_of_mem a hb)) (s.perform a).session
    have hone : (s.perform a).session.editor.nextId ≤
        s.editor.nextId + (s.editor.graph.nodes.entries.length + 1) := by
      rcases perform_places_or_keeps s (hkeep a List.mem_cons_self) with ⟨-, hsame⟩ |
        ⟨c, hplaces, -, hed⟩
      · omega
      · have hfree := s.editor.freeId_le
        rw [hed, hplaces.editor]
        show s.editor.freeId + 1 ≤ _
        omega
    show ((s.perform a).session.run rest).editor.nextId ≤ _
    rw [passed]
    omega

/-- The numbers of a run are increasing, from the counter on. -/
theorem placements_numbered (actions : List Action) (hkeep : ∀ a ∈ actions, a.renumbers = false)
    (s : Session) : ∃ numbers : List Nat,
      (s.placements actions).map Node.id = numbers.map (toString ·) ∧
      numbers.Pairwise (· < ·) ∧
      ∀ m ∈ numbers, s.editor.nextId ≤ m ∧ m < Nat.pow 10 Number.maxIntegerDigits := by
  induction actions generalizing s with
  | nil => exact ⟨[], rfl, .nil, by simp⟩
  | cons a rest ih =>
    obtain ⟨numbers, hids, hsorted, hbounds⟩ :=
      ih (fun b hb => hkeep b (List.mem_cons_of_mem a hb)) (s.perform a).session
    rcases perform_places_or_keeps s (hkeep a List.mem_cons_self) with ⟨hnone, hsame⟩ |
      ⟨c, hplaces, hplaced, hed⟩
    · rw [hsame] at hbounds
      exact ⟨numbers, by rw [placements, hnone]; exact hids, hsorted, hbounds⟩
    · -- The counter stands behind the number that was taken, so the later ones are greater.
      have hcounter : (s.perform a).session.editor.nextId = s.editor.freeId + 1 := by
        rw [hed, hplaces.editor]
      have hle := s.editor.le_freeId
      refine ⟨s.editor.freeId :: numbers, ?_, ?_, ?_⟩
      · simp [placements, hplaced, hids, hplaces.named]
      · refine List.pairwise_cons.mpr ⟨fun m hm => ?_, hsorted⟩
        have hm := (hbounds m hm).1
        omega
      · refine List.forall_mem_cons.mpr ⟨⟨hle, hplaces.written⟩, fun m hm => ?_⟩
        obtain ⟨hlow, hhigh⟩ := hbounds m hm
        exact ⟨by omega, hhigh⟩

end Session

/-- The actions that a numbering starts with.  The numbers among the ids that are loaded have fewer
digits than a number may be written with. -/
def Action.StartsNumbering : Action → Prop
  | .reset => True
  | .load nodes _ => ∀ n ∈ nodes, ∀ k, Value.integerOfText n.id = .ok k →
      k < Nat.pow 10 (Number.maxIntegerDigits - 1)
  | _ => False

namespace Session

theorem nextId_of_startsNumbering (s : Session) {first : Action} (h : first.StartsNumbering) :
    (s.perform first).session.editor.nextId ≤ Nat.pow 10 (Number.maxIntegerDigits - 1) := by
  have hpos : ∀ digits, 0 < Nat.pow 10 digits := fun _ => Nat.pow_pos (by decide)
  cases first with
  | reset => exact hpos _
  | load nodes edges =>
    refine Editor.nextIdOf_le (hpos _) fun id hid k hk => ?_
    obtain ⟨n, hn, rfl⟩ := List.mem_map.mp (Editor.mem_loadedIds.mp hid)
    exact h n hn k hk
  | _ => cases h

/-- From a reset or a load on, every new node gets an id that is not in use and that no new node had
before, and it is behind all numbers that were loaded.  The number can be written for as long as the
run has not passed over more numbers than there are with the greatest count of digits. -/
theorem run_ids_fresh (s : Session) (first : Action) (hfirst : first.StartsNumbering)
    (actions : List Action) (hkeep : ∀ a ∈ actions, a.renumbers = false) :
    let s₀ := (s.perform first).session
    (∀ before a after, actions = before ++ a :: after →
      (∀ n, (s₀.run before).placed a = some n →
        (s₀.run before).editor.Gains (s₀.run (before ++ [a])).editor n) ∧
      (a.mayPlace (s₀.run before).editor = true →
        Nat.pow 10 (Number.maxIntegerDigits - 1) + s₀.passed (before ++ [a]) ≤
          Nat.pow 10 Number.maxIntegerDigits →
        ∃ n, (s₀.run before).placed a = some n)) ∧
    ((s₀.placements actions).map Node.id).Nodup ∧
    ∀ nodes edges, first = .load nodes edges → ∀ m ∈ nodes, ∀ k,
      Value.integerOfText m.id = .ok k → ∀ n ∈ s₀.placements actions,
        ∃ number, Value.integerOfText n.id = .ok number ∧ k < number := by
  intro s₀
  obtain ⟨numbers, hids, hsorted, hbounds⟩ := placements_numbered actions hkeep s₀
  refine ⟨fun before a after hactions => ⟨fun n hn => ?_, fun hmay hroom => ?_⟩, ?_, ?_⟩
  · have ha : a.renumbers = false := hkeep a (by simp [hactions])
    rw [run_concat]
    rcases perform_places_or_keeps (s₀.run before) ha with ⟨hnone, -⟩ | ⟨c, hplaces, hplaced, hed⟩
    · rw [hnone] at hn
      cases hn
    · obtain rfl : c.result = n := Option.some.inj (hplaced.symm.trans hn)
      rw [hed]
      exact hplaces.gains
  · have hbefore : ∀ b ∈ before, b.renumbers = false := fun b hb => hkeep b (by simp [hactions, hb])
    have hstart : s₀.editor.nextId ≤ _ := nextId_of_startsNumbering s hfirst
    have hcounter := nextId_run_le before hbefore s₀
    have hfree := (s₀.run before).editor.freeId_le
    rw [passed_concat] at hroom
    exact exists_placed hmay (by omega)
  · rw [hids]
    exact (hsorted.imp Nat.ne_of_lt).map _ fun _ _ hne h => hne (Editor.toString_injective h)
  · rintro nodes edges rfl m hm k hk n hn
    have hid : n.id ∈ numbers.map (toString ·) := hids ▸ List.mem_map_of_mem hn
    obtain ⟨number, hnumber, hname⟩ := List.mem_map.mp hid
    obtain ⟨hlow, hhigh⟩ := hbounds number hnumber
    refine ⟨number, by rw [← hname]; exact Value.integerOfText_toString hhigh, ?_⟩
    have hloaded : k < s₀.editor.nextId :=
      Editor.lt_nextIdOf (Editor.mem_loadedIds.mpr (List.mem_map_of_mem hm)) hk
    omega

/-! A graph is loaded that has `12` for an id, in digits of another script.  The first new node is
deleted, the second is undone, and the last ones are placed in an older graph that has a node
`16`. -/

def olderSession : Session :=
  (start sampleCatalog .standard).run
    [.load [{ id := "16", nodeType := "Number" }] [], .snapshot "older"]

def loadedNodes : List Node :=
  [{ id := "007", nodeType := "Number" }, { id := "x", nodeType := "Box" },
    { id := "\uFF11\uFF12", nodeType := "Show" }]

def numberingRun : List Action := [
  .snapshot "loaded", .add "Number" .zero, .delete "13", .duplicate "x", .restore "loaded",
  .add "Unknown" .zero, .add "Box" .zero, .restore "older", .add "Show" .zero, .duplicate "16"]

theorem run_ids_fresh_sample :
    let s₀ := (olderSession.perform (.load loadedNodes [])).session
    let before := numberingRun.take 8
    (Action.load loadedNodes []).StartsNumbering ∧ (∀ a ∈ numberingRun, a.renumbers = false) ∧
    (s₀.placements numberingRun).map Node.id = ["13", "14", "15", "17", "18"] ∧
    (∃ n, (s₀.run before).placed (.add "Show" .zero) = some n ∧
      (s₀.run before).editor.Gains (s₀.run (before ++ [.add "Show" .zero])).editor n) ∧
    ((s₀.placements numberingRun).map Node.id).Nodup ∧
    ∀ n ∈ s₀.placements numberingRun,
      ∃ number, Value.integerOfText n.id = .ok number ∧ 12 < number := by
  intro s₀ before
  have hfirst : (Action.load loadedNodes []).StartsNumbering := by
    have hshort : ∀ n ∈ loadedNodes,
        Editor.idNumber n.id < Nat.pow 10 (Number.maxIntegerDigits - 1) := by decide +kernel
    intro n hn k hk
    have hlt := hshort n hn
    rw [Editor.idNumber_of_ok hk] at hlt
    omega
  have hkeep : ∀ a ∈ numberingRun, a.renumbers = false := by decide
  obtain ⟨hsteps, hnodup, hbehind⟩ := run_ids_fresh olderSession _ hfirst numberingRun hkeep
  obtain ⟨hgains, hplaces⟩ := hsteps before (.add "Show" .zero) [.duplicate "16"] rfl
  obtain ⟨n, hn⟩ := hplaces (by decide +kernel) (by decide +kernel)
  refine ⟨hfirst, hkeep, by decide +kernel, ⟨n, hn, hgains n hn⟩, hnodup, ?_⟩
  exact hbehind loadedNodes [] rfl _ (List.mem_cons_of_mem _ (List.mem_cons_of_mem _
    List.mem_cons_self)) 12 (by decide +kernel)

end Session
end Patchbay
