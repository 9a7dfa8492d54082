import Patchbay.Proofs.Editor.Structure

/-!
The registry as a ledger.  An `Inquiry` is one decision that is asked for, with all that it reads:
`gives_validate` says what it answers and which samples it records on the way, and `gives_run` says
the same of every `Call` through which decisions are asked for.  A registry that was empty at first
therefore holds the samples of all that was asked, and each quantity is a count of the answers
(`registry_is_ledger`).

The registry of a session is the one that the calls of its actions leave (`Session.registry_run`).
-/

namespace Patchbay

/-! ### Samples by name -/

namespace Registry

variable {r : Registry} {name tag value : String}

/-- The samples of a quantity, none if it was never sampled. -/
def samplesOf (r : Registry) (name : String) : List Sample :=
  (r.series? name).elim [] Series.samples

def tagged (r : Registry) (name tag value : String) : Nat :=
  (r.series? name).elim 0 fun s => s.countWhere [(tag, .str value)]

theorem tagged_eq_countP :
    r.tagged name tag value = (r.samplesOf name).countP fun x => x.tagHolds tag (.str value) := by
  unfold tagged samplesOf
  cases r.series? name with
  | none => rfl
  | some s => simp [Series.countWhere]

theorem samplesOf_record (r : Registry) (x : Sample) (name : String) :
    (r.record x).samplesOf name = r.samplesOf name ++ [x].filter fun y => y.name == name := by
  unfold samplesOf series? record
  rw [Table.get?_insert]
  by_cases hname : name = x.name
  · subst hname
    cases r.series.get? x.name <;> simp
  · simp [hname, Ne.symm hname]

theorem samplesOf_recordAll (r : Registry) (xs : List Sample) (name : String) :
    (r.recordAll xs).samplesOf name = r.samplesOf name ++ xs.filter fun y => y.name == name := by
  unfold recordAll
  induction xs generalizing r with
  | nil => simp
  | cons x rest ih =>
    rw [List.foldl_cons, ih, samplesOf_record, List.append_assoc, ← List.filter_append]
    rfl

end Registry

theorem Sample.tagHolds_accepted (k l : HandleKind) :
    (Sample.accepted k).tagHolds "kind" (.str l.name) = (k == l) := by
  cases k <;> cases l <;> decide

theorem Sample.tagHolds_rejected (reason : Reason) (name : String) :
    (Sample.rejected reason).tagHolds "reason" (.str name) = (reason.name == name) := rfl

/-! ### Inquiries -/

/-- One decision that is asked for. -/
structure Inquiry where
  theme : Theme
  catalog : Catalog
  nodes : Nodes
  edges : List Edge
  wire : Wire

namespace Inquiry

def validate (q : Inquiry) : Metered Decision :=
  Decision.validate q.theme q.catalog q.nodes q.edges q.wire

def answer (q : Inquiry) : Except Fault Decision :=
  Decision.make q.theme q.catalog q.nodes q.edges q.wire

def acceptedKind? (q : Inquiry) : Option HandleKind :=
  match q.answer, Handle.inspect q.nodes q.catalog q.wire.source q.wire.sourceHandle .output with
  | .ok (.accepted ..), .ok (some h) => some h.kind
  | _, _ => none

def rejectedReason? (q : Inquiry) : Option Reason :=
  match q.answer with
  | .ok (.rejected reason) => some reason
  | _ => none

def evicted? (q : Inquiry) : Option (List String) :=
  match q.answer with
  | .ok (.accepted _ _ evicted) => if evicted.isEmpty then none else some evicted
  | _ => none

def obstacle? (q : Inquiry) : Option TypeTree.Obstacle :=
  match q.rejectedReason? with
  | some (.resolutionFailed o) => some o
  | _ => none

theorem isSome_obstacle? (q : Inquiry) :
    q.obstacle?.isSome = (q.rejectedReason?.map Reason.name == some "resolution_failed") := by
  unfold obstacle?
  cases q.rejectedReason? with
  | none => rfl
  | some reason => cases reason <;> rfl

inductive Quantity where
  | unresolvable
  | rejected
  | accepted
  | evicted
deriving DecidableEq

def Quantity.name : Quantity → String
  | .unresolvable => Metrics.unresolvable
  | .rejected => Metrics.rejected
  | .accepted => Metrics.accepted
  | .evicted => Metrics.evicted

/-- What an inquiry adds to a quantity: one sample or none. -/
def sample? (q : Inquiry) : Quantity → Option Sample
  | .unresolvable => q.obstacle?.map .unresolvable
  | .rejected => q.rejectedReason?.map .rejected
  | .accepted => q.acceptedKind?.map .accepted
  | .evicted => q.evicted?.map .evicted

/-- All that an inquiry adds, in order. -/
def samples (q : Inquiry) : List Sample :=
  [.unresolvable, .rejected, .accepted, .evicted].flatMap fun k => (q.sample? k).toList

/-- The samples that are recorded are those that the answer asks for. -/
theorem gives_validate (q : Inquiry) : q.validate.Gives q.answer q.samples := by
  obtain ⟨a, xs, h⟩ := Decision.exists_course q.theme q.catalog q.nodes q.edges q.wire
  have hanswer : q.answer = a := h.gives.result_eq
  suffices hsamples : q.samples = xs by
    rw [hanswer, hsamples]
    exact h.gives
  unfold samples sample? obstacle? rejectedReason? acceptedKind? evicted?
  rw [hanswer]
  cases h with
  | sourceFault | targetFault | unknown | strokeFault => rfl
  | @refused _ _ reason => cases reason <;> rfl
  | @accepted s t rebinding css source =>
    rw [show Handle.inspect q.nodes q.catalog q.wire.source q.wire.sourceHandle .output =
      .ok (some s) from source]
    generalize Decision.evictedBy q.wire s.kind q.edges = ids
    cases ids <;> rfl

theorem samples_of_fault {q : Inquiry} {f : Fault} (h : q.answer = .error f) : q.samples = [] := by
  simp [samples, sample?, obstacle?, rejectedReason?, acceptedKind?, evicted?, h]

theorem name_of_sample? {q : Inquiry} {k : Quantity} {x : Sample} (h : q.sample? k = some x) :
    x.name = k.name := by
  cases k with
  | _ =>
    obtain ⟨_, -, rfl⟩ := Option.map_eq_some_iff.mp h
    rfl

theorem Quantity.name_ne {j k : Quantity} (h : j ≠ k) : j.name ≠ k.name := by
  revert h
  cases j <;> cases k <;> decide

/-- The quantities have different names, so that each one gets its own sample only. -/
theorem filter_samples (q : Inquiry) (k : Quantity) :
    q.samples.filter (fun y => y.name == k.name) = (q.sample? k).toList := by
  have hsample : ∀ j, (q.sample? j).toList.filter (fun y => y.name == k.name) =
      if j = k then (q.sample? k).toList else [] := by
    intro j
    cases h : q.sample? j with
    | none =>
      by_cases hj : j = k
      · simp [← hj, h]
      · simp [hj]
    | some x =>
      by_cases hj : j = k
      · simp [← hj, h, name_of_sample? h]
      · simp [hj, name_of_sample? h, Quantity.name_ne hj]
  rw [samples, List.filter_flatMap]
  simp only [hsample]
  cases k <;> simp

/-- The samples of a quantity are those of the inquiries, in order. -/
theorem samplesOf_asked (asked : List Inquiry) (k : Quantity) :
    (Registry.empty.recordAll (asked.flatMap samples)).samplesOf k.name =
      asked.filterMap (·.sample? k) := by
  rw [Registry.samplesOf_recordAll, List.filter_flatMap, List.filterMap_eq_flatMap_toList]
  simp only [filter_samples]
  rfl

theorem tagged_asked (asked : List Inquiry) (k : Quantity) {tag value : String} {p : Inquiry → Bool}
    (h : ∀ q, (q.sample? k).any (·.tagHolds tag (.str value)) = p q) :
    (Registry.empty.recordAll (asked.flatMap samples)).tagged k.name tag value =
      asked.countP p := by
  rw [Registry.tagged_eq_countP, samplesOf_asked, List.countP_filterMap]
  refine List.countP_congr fun q _ => ?_
  rw [← h q]
  cases q.sample? k <;> rfl

end Inquiry

/-! ### Calls -/

def Editor.inquiry (ed : Editor) (theme : Theme) (wire : Wire) : Inquiry :=
  { theme, catalog := ed.catalog, nodes := ed.graph.nodes, edges := ed.graph.edges, wire }

/-- Connecting a wire records what its decision records. -/
theorem Editor.exists_gives_answer (ed : Editor) (wire : Wire) :
    ∃ a, (ed.attach wire).Gives a (ed.inquiry ed.settings.theme wire).samples ∧
      a.map Change.result = (ed.inquiry ed.settings.theme wire).answer := by
  have h := (ed.inquiry ed.settings.theme wire).gives_validate
  cases ha : (ed.inquiry ed.settings.theme wire).answer with
  | error f =>
    rw [ha] at h
    exact ⟨.error f, h.bind_error, rfl⟩
  | ok d =>
    rw [ha] at h
    obtain ⟨c, hc, rfl, -⟩ := exists_gives_attach h
    exact ⟨.ok c, hc, rfl⟩

/-- The inquiries of an audit.  A fault ends it. -/
def Audit.inquiries (catalog : Catalog) (all : List Edge) : Nodes → List Edge → List Inquiry
  | _, [] => []
  | nodes, e :: rest =>
    let q : Inquiry := ⟨.standard, catalog, nodes, all.filter fun o => o.id != e.id, e.wire⟩
    match q.answer with
    | .error _ => [q]
    | .ok d => q :: inquiries catalog all (d.nodesAfter nodes) rest

theorem Audit.exists_gives_answers (catalog : Catalog) (all edges : List Edge) (nodes : Nodes) :
    ∃ a, (replay catalog all nodes edges).Gives a
        ((inquiries catalog all nodes edges).flatMap Inquiry.samples) ∧
      a.map (·.map Prod.snd) = (inquiries catalog all nodes edges).mapM Inquiry.answer := by
  induction edges generalizing nodes with
  | nil => exact ⟨_, .pure _, rfl⟩
  | cons e rest ih =>
    let q : Inquiry := ⟨.standard, catalog, nodes, all.filter fun o => o.id != e.id, e.wire⟩
    have hq := q.gives_validate
    have hinquiries : inquiries catalog all nodes (e :: rest) = match q.answer with
      | .error _ => [q]
      | .ok d => q :: inquiries catalog all (d.nodesAfter nodes) rest := rfl
    rw [hinquiries]
    cases ha : q.answer with
    | error f =>
      rw [ha] at hq
      refine ⟨.error f, ?_, ?_⟩
      · rw [List.flatMap_singleton]
        exact hq.bind_error
      · rw [List.mapM_cons, ha]
        rfl
    | ok d =>
      rw [ha] at hq
      obtain ⟨a, hrest, hanswers⟩ := ih (d.nodesAfter nodes)
      refine ⟨_, gives_replay_cons hq hrest, ?_⟩
      rw [List.mapM_cons, ha, ← hanswers]
      cases a <;> rfl

/-- The ways to ask for decisions: directly, by connecting a wire in an editor, or by an audit. -/
inductive Call where
  | validate (q : Inquiry)
  | connect (editor : Editor) (wire : Wire)
  | audit (catalog : Catalog) (nodes : Nodes) (edges : List Edge)

namespace Call

def run : Call → Metered (List Decision)
  | .validate q => do return [← q.validate]
  | .connect ed wire => do return [(← ed.attach wire).result]
  | .audit catalog nodes edges => do return (← Audit.ofGraph catalog nodes edges).map Prod.snd

def inquiries : Call → List Inquiry
  | .validate q => [q]
  | .connect ed wire => [ed.inquiry ed.settings.theme wire]
  | .audit catalog nodes edges => Audit.inquiries catalog edges nodes edges

/-- A call gives the answers of its inquiries and records their samples. -/
theorem gives_run (c : Call) :
    c.run.Gives (c.inquiries.mapM Inquiry.answer) (c.inquiries.flatMap Inquiry.samples) := by
  have hone : ∀ q : Inquiry, [q].mapM Inquiry.answer = q.answer.map ([·]) := by
    intro q
    rw [List.mapM_cons]
    cases q.answer <;> rfl
  cases c with
  | validate q =>
    rw [inquiries, List.flatMap_singleton, hone]
    exact q.gives_validate.bind_pure _
  | connect ed wire =>
    obtain ⟨a, ha, hanswer⟩ := ed.exists_gives_answer wire
    have hmap : (a.map Change.result).map ([·]) = a.map fun c => [c.result] := by cases a <;> rfl
    rw [inquiries, List.flatMap_singleton, hone, ← hanswer, hmap]
    exact ha.bind_pure _
  | audit catalog nodes edges =>
    obtain ⟨a, ha, hanswers⟩ := Audit.exists_gives_answers catalog edges edges nodes
    rw [inquiries, ← hanswers]
    exact ha.bind_pure _

/-- The registry after a call.  A fault keeps what was recorded before it. -/
def after (r : Registry) (c : Call) : Registry := (c.run.on r).2

theorem foldl_after (calls : List Call) (r : Registry) :
    calls.foldl after r = r.recordAll ((calls.flatMap inquiries).flatMap Inquiry.samples) := by
  induction calls generalizing r with
  | nil => rfl
  | cons c rest ih =>
    rw [List.foldl_cons, ih, after, c.gives_run r, List.flatMap_cons, List.flatMap_append,
      Registry.recordAll_append]

end Call

namespace Session

def calls (s : Session) : Action → List Call
  | .connect wire => [.connect s.editor wire]
  | .validate wire _ => [.validate (s.editor.inquiry .standard wire)]
  | .audit => [.audit s.editor.catalog s.editor.graph.nodes s.editor.graph.edges]
  | _ => []

def callsOf (s : Session) : List Action → List Call
  | [] => []
  | a :: rest => s.calls a ++ callsOf (s.perform a).session rest

theorem registry_stepped {α : Type} (s : Session) (outcome : α → Outcome)
    (result : Except Fault (Change α)) :
    (s.stepped outcome result).session.registry = s.registry := by
  cases result <;> rfl

/-- No action records anything but by its calls. -/
theorem registry_perform (s : Session) (a : Action) :
    (s.perform a).session.registry = (s.calls a).foldl Call.after s.registry := by
  cases a with
  | connect wire =>
    show (Session.stepped _ _ _).session.registry = (Metered.on _ _).2
    rw [registry_stepped, Call.run, Metered.registry_bind_pure]
    rfl
  | validate | audit => exact (Metered.registry_bind_pure ..).symm
  | restore name =>
    rw [perform]
    cases kept s.snapshots name <;> rfl
  | importDocument document =>
    rw [perform]
    cases s.editor.importDocument document <;> rfl
  | add | duplicate | delete | setInputs | setMode | resetBindings | apply | reload =>
    rw [perform, registry_stepped]
    rfl
  | look | handles | removeEdges | snapshot | reset | load | exportText | request => rfl

theorem registry_run (s : Session) (actions : List Action) :
    (s.run actions).registry = (s.callsOf actions).foldl Call.after s.registry := by
  induction actions generalizing s with
  | nil => rfl
  | cons a rest ih =>
    show ((s.perform a).session.run rest).registry = _
    rw [ih, callsOf, List.foldl_append, registry_perform]

end Session

/-! ### The ledger -/

namespace Call

/-- From an empty registry on: wires accepted by kind, wires rejected by reason, types that could
not be resolved, and the numbers of evicted edges are counted as they were decided.  The calls give
the answers of their inquiries in any registry, and an inquiry with a fault leaves it as it was. -/
theorem registry_is_ledger (calls : List Call) :
    let r := calls.foldl after .empty
    let asked := calls.flatMap inquiries
    (∀ k, r.tagged Metrics.accepted "kind" k.name = asked.countP (·.acceptedKind? == some k)) ∧
    (∀ reason, r.tagged Metrics.rejected "reason" reason =
      asked.countP fun q => q.rejectedReason?.map Reason.name == some reason) ∧
    (r.samplesOf Metrics.unresolvable).length =
      asked.countP (fun q => q.rejectedReason?.map Reason.name == some "resolution_failed") ∧
    (r.samplesOf Metrics.evicted).map Sample.value =
      (asked.filterMap Inquiry.evicted?).map (fun ids => Float.ofNat ids.length) ∧
    (∀ c ∈ calls, ∀ before, (c.run.on before).1 = c.inquiries.mapM Inquiry.answer) ∧
    ∀ q ∈ asked, ∀ f, q.answer = .error f →
      ∀ before, q.validate.on before = (.error f, before) := by
  intro r asked
  have hr : r = Registry.empty.recordAll (asked.flatMap Inquiry.samples) :=
    foldl_after calls .empty
  have hsamples (k : Inquiry.Quantity) : r.samplesOf k.name = asked.filterMap (·.sample? k) := by
    rw [hr, Inquiry.samplesOf_asked]
  refine ⟨fun k => ?_, fun reason => ?_, ?_, ?_, fun c _ before => ?_, fun q _ f hf before => ?_⟩
  · rw [hr]
    refine Inquiry.tagged_asked asked .accepted fun q => ?_
    unfold Inquiry.sample?
    cases q.acceptedKind? <;> simp [Sample.tagHolds_accepted]
  · rw [hr]
    refine Inquiry.tagged_asked asked .rejected fun q => ?_
    unfold Inquiry.sample?
    cases q.rejectedReason? <;> simp [Sample.tagHolds_rejected]
  · rw [show r.samplesOf Metrics.unresolvable = _ from hsamples .unresolvable,
      List.length_filterMap_eq_countP]
    refine List.countP_congr fun q _ => ?_
    rw [Inquiry.sample?, Option.isSome_map, Inquiry.isSome_obstacle?]
  · rw [show r.samplesOf Metrics.evicted = _ from hsamples .evicted, List.map_filterMap,
      List.map_filterMap]
    refine List.filterMap_congr fun q _ => ?_
    rw [Inquiry.sample?, Option.map_map]
    rfl
  · rw [c.gives_run before]
  · rw [q.gives_validate before, hf, Inquiry.samples_of_fault hf]
    rfl

/-! A session with a handle that is gone and with an audit at its end, and then an inquiry with a
type that cannot be read. -/

def sampleActions : List Action :=
  Session.sampleRun ++ [.connect ⟨"2", some "box", "2", some "item"⟩, .audit]

def faultyInquiry : Inquiry where
  theme := .standard
  catalog := .ofList [("Open", Session.sampleType [] [("value", "list<")] []),
    ("Show", Session.sampleType [("any", "*")] [] [])]
  nodes := .ofList [{ id := "1", nodeType := "Open" }, { id := "2", nodeType := "Show" }]
  edges := []
  wire := ⟨"1", some "value", "2", some "any"⟩

def sampleCalls : List Call :=
  (Session.start Session.sampleCatalog .standard).callsOf sampleActions ++
    [.validate faultyInquiry]

theorem registry_is_ledger_sample :
    let r := sampleCalls.foldl after .empty
    r.tagged Metrics.accepted "kind" "data" = 4 ∧
    r.tagged Metrics.rejected "reason" "unknown_handle" = 1 ∧
    ∃ f, faultyInquiry.answer = .error f ∧
      ∀ before, faultyInquiry.validate.on before = (.error f, before) := by
  intro r
  obtain ⟨haccepted, hrejected, -, -, -, hfaults⟩ := registry_is_ledger sampleCalls
  have hasked : faultyInquiry ∈ sampleCalls.flatMap inquiries := by
    rw [sampleCalls, List.flatMap_append]
    exact List.mem_append_right _ List.mem_cons_self
  have hfault : ∃ f, faultyInquiry.answer = .error f := by
    have hnone : faultyInquiry.answer.toOption.isNone = true := by decide +kernel
    cases hanswer : faultyInquiry.answer with
    | error f => exact ⟨f, rfl⟩
    | ok d =>
      rw [hanswer] at hnone
      cases hnone
  obtain ⟨f, hf⟩ := hfault
  refine ⟨(haccepted .data).trans ?_, (hrejected "unknown_handle").trans ?_, f, hf, ?_⟩
  · decide +kernel
  · decide +kernel
  · exact hfaults faultyInquiry hasked f hf

end Call
end Patchbay
