import Patchbay.Proofs.Flow.RoundTrip

/-!
How reading a flow document can fail.  A part of a document can be unusable in many ways, and most
of them are told as faults of the document.  Which ways there are is said step by step, with
`FaultsIn`: each step fails only with faults that are `Covered`.

The one exception is a coordinate.  A whole number is turned into a double there, and one that is
too large for that is a fault of its own family, which nothing turns into a fault of the document.
So reading either gives a graph or fails with a fault of the document, unless the first node that
cannot be read is one that stands too far away (`ofDocument_fault_iff`).
-/

namespace Patchbay

/-- A mismatch that is told as a fault of the document. -/
def Value.Mismatch.Covered (m : Value.Mismatch) : Prop :=
  Flow.isAbsorbed (Fault.mismatchKind m) = true

/-- A fault that is one of the document or is told as one. -/
def Fault.Covered (f : Fault) : Prop := f.kind = .flow ∨ Flow.isAbsorbed f.kind = true

theorem Fault.not_covered_tooLarge : ¬(Fault.value .tooLarge).Covered := by
  rintro (h | h) <;> cases h

/-! ### Values -/

namespace Value

theorem covered_lookup? (name : String) (v : Value) :
    FaultsIn Mismatch.Covered (v.lookup? name) := by
  cases v with
  | dict fields => exact .ok _
  | _ => exact .error rfl

theorem covered_part (name : String) (v : Value) : FaultsIn Mismatch.Covered (v.part name) := by
  cases v with
  | dict fields =>
    rw [part]
    cases named? name fields with
    | none => exact .error rfl
    | some v => exact .ok v
  | _ => exact .error rfl

theorem covered_items (v : Value) : FaultsIn Mismatch.Covered v.items := by
  cases v with
  | null | bool | int | float => exact .error rfl
  | _ => exact .ok _

theorem covered_fieldsOfPairs (pairs : List Value) (position : Nat)
    (fields : List (Value × Value)) :
    FaultsIn Mismatch.Covered (fieldsOfPairs position fields pairs) := by
  induction pairs generalizing position fields with
  | nil => exact .ok _
  | cons v rest ih =>
    unfold fieldsOfPairs
    split
    · exact .error rfl
    · unfold putChecked
      split
      · next hbad =>
        split at hbad
        · cases hbad
          exact .error rfl
        · cases hbad
      · exact ih _ _
    · exact .error rfl

theorem covered_toFields (v : Value) : FaultsIn Mismatch.Covered v.toFields := by
  unfold toFields
  split
  · exact .ok _
  · split
    · next e he => exact .error (covered_items _ e he)
    · exact covered_fieldsOfPairs _ _ _

/-- A number that no double is nearest to. -/
def IsFar (v : Value) : Prop := ∃ n, v = .int n ∧ Number.overflowBound ≤ n.natAbs

theorem toReal_eq_tooLarge_iff {v : Value} : v.toReal = .error .tooLarge ↔ v.IsFar := by
  cases v with
  | int n =>
    rw [toReal, realOfInteger, Number.ofInt?]
    by_cases hn : n.natAbs < Number.overflowBound
    · rw [if_pos hn]
      constructor
      · intro h
        cases h
      · rintro ⟨m, hm, hfar⟩
        cases hm
        omega
    · rw [if_neg hn]
      exact ⟨fun _ => ⟨n, rfl, by omega⟩, fun _ => rfl⟩
  | str s =>
    rw [toReal]
    cases Number.readFloat? s.toList <;> simp [IsFar]
  | _ => simp [toReal, IsFar]

theorem covered_toReal (v : Value) :
    FaultsIn (fun m => m.Covered ∨ m = .tooLarge) v.toReal := by
  cases v with
  | int n =>
    rw [toReal, realOfInteger]
    cases Number.ofInt? n with
    | none => exact .error (.inr rfl)
    | some x => exact .ok x
  | str s =>
    rw [toReal]
    cases Number.readFloat? s.toList with
    | none => exact .error (.inl rfl)
    | some x => exact .ok x
  | bool | float => exact .ok _
  | _ => exact .error (.inl rfl)

end Value

theorem Mode.covered_ofValue (v : Value) : FaultsIn Fault.Covered (Mode.ofValue v) := by
  unfold Mode.ofValue
  split
  · exact .ok _
  · exact .ok _
  · exact .ok _
  · split
    · exact .error (.inr rfl)
    · exact .error (.inr rfl)

namespace Flow

/-! ### Nodes -/

theorem covered_mapError {α : Type} {x : Except Value.Mismatch α}
    (h : FaultsIn Value.Mismatch.Covered x) : FaultsIn Fault.Covered (x.mapError .value) :=
  .mapError (h.mono fun _ hm => .inr hm)

theorem covered_lookup? (v : Value) (name : String) :
    FaultsIn Fault.Covered ((v.lookup? name).mapError .value) :=
  covered_mapError (v.covered_lookup? name)

theorem covered_textOf (v : Value) : FaultsIn Fault.Covered (textOf v) := by
  unfold textOf
  split
  · exact .ok _
  · exact .error (.inr rfl)

theorem covered_textPart (v : Value) (name : String) :
    FaultsIn Fault.Covered (textPart v name) :=
  .bind (covered_mapError (v.covered_part name)) fun part _ => covered_textOf part

theorem covered_bindingsOf (fields : List (Value × Value)) :
    FaultsIn Fault.Covered (bindingsOf fields) := by
  refine .bind (.mapM fun e _ => ?_) fun _ _ => .ok _
  refine .bind (covered_textOf e.1) fun name _ => ?_
  exact .bind (.mapError fun _ _ => .inr rfl) fun _ _ => .ok _

theorem covered_unplacedOf (v : Value) : FaultsIn Fault.Covered (unplacedOf v) := by
  refine .bind (covered_lookup? v "generic_types") fun given _ => ?_
  split
  · next bindings _ =>
    refine .bind (covered_textPart v "id") fun id _ => ?_
    refine .bind (covered_textPart v "node_type") fun nodeType _ => ?_
    refine .bind (covered_lookup? v "execution_type") fun mode _ => ?_
    refine .bind (Mode.covered_ofValue _) fun mode _ => ?_
    refine .bind (covered_lookup? v "inputs") fun inputs _ => ?_
    refine .bind (covered_mapError (Value.covered_toFields _)) fun inputs _ => ?_
    refine .bind (covered_bindingsOf bindings) fun bindings _ => ?_
    refine .bind (covered_lookup? v "width") fun width _ => ?_
    exact .bind (covered_lookup? v "height") fun height _ => .ok _
  · refine .bind (covered_lookup? v "id") fun id _ => .error ?_
    unfold bindingsFault
    split
    · exact .inl rfl
    · exact .inr rfl

/-! ### Places -/

def FarAt (name : String) (position : Value) : Prop :=
  ∃ v, position.lookup? name = .ok (some v) ∧ v.IsFar

theorem coordinate_eq_tooLarge_iff {name : String} {position : Value} :
    coordinate name position = .error .tooLarge ↔ FarAt name position := by
  unfold coordinate FarAt
  cases hv : position.lookup? name with
  | error m =>
    have hcovered := position.covered_lookup? name m hv
    constructor
    · intro h
      cases h
      cases hcovered
    · rintro ⟨v, hv', -⟩
      cases hv'
  | ok v =>
    rw [ok_bind, Value.toReal_eq_tooLarge_iff]
    cases v with
    | none => simp [Value.IsFar]
    | some v => simp

theorem covered_coordinate (name : String) (position : Value) :
    FaultsIn (fun m => m.Covered ∨ m = .tooLarge) (coordinate name position) :=
  .bind ((position.covered_lookup? name).mono fun _ => .inl) fun _ _ => Value.covered_toReal _

/-- The first coordinate that cannot be read is too large. -/
def FarPlace (position : Value) : Prop :=
  FarAt "x" position ∨ (∃ x, coordinate "x" position = .ok x) ∧ FarAt "y" position

/-- All of a node can be read but its place, which is too far away. -/
def FarNode (node : Value) : Prop :=
  ∃ n position, unplacedOf node = .ok n ∧ node.lookup? "position" = .ok (some position) ∧
    FarPlace position

theorem truthy_of_farAt {name : String} {position : Value} (h : FarAt name position) :
    position.truthy = true := by
  obtain ⟨v, hv, -⟩ := h
  cases position with
  | dict fields =>
    cases fields with
    | nil => cases hv
    | cons e fields => rfl
  | _ => cases hv

theorem truthy_of_farPlace {position : Value} (h : FarPlace position) :
    position.truthy = true := by
  rcases h with hx | ⟨-, hy⟩
  · exact truthy_of_farAt hx
  · exact truthy_of_farAt hy

/-- What stands in for a place that is absent is not far, so one that is far was given. -/
theorem farPlace_orEmpty_iff {given : Option Value} :
    FarPlace (orEmpty given) ↔ ∃ position, given = some position ∧ FarPlace position := by
  have hnot : ¬FarPlace (.dict []) := fun h => by cases truthy_of_farPlace h
  cases given with
  | none => simpa [orEmpty] using hnot
  | some position =>
    by_cases ht : position.truthy = true
    · rw [orEmpty, if_pos ht]
      simp
    · have hplace : ¬FarPlace position := fun h => ht (truthy_of_farPlace h)
      rw [orEmpty, if_neg ht]
      simpa [hplace] using hnot

theorem placed_eq_tooLarge_iff (position : Value) (n : Node) :
    (do
      let x ← (coordinate "x" position).mapError Fault.value
      let y ← (coordinate "y" position).mapError Fault.value
      return { n with position := ⟨x, y⟩ } : Except Fault Node) = .error (.value .tooLarge) ↔
    FarPlace position := by
  rw [FarPlace, ← coordinate_eq_tooLarge_iff, ← coordinate_eq_tooLarge_iff]
  cases coordinate "x" position with
  | error m => simp [bind, Except.bind]
  | ok x => cases coordinate "y" position <;> simp [bind, Except.bind, pure, Except.pure]

theorem nodeOf_eq_tooLarge_iff {node : Value} :
    nodeOf node = .error (.value .tooLarge) ↔ FarNode node := by
  unfold nodeOf FarNode
  cases hgiven : node.lookup? "position" with
  | error m =>
    have hcovered := node.covered_lookup? "position" m hgiven
    constructor
    · intro h
      cases h
      cases hcovered
    · rintro ⟨_, _, -, h, -⟩
      cases h
  | ok given =>
    cases hn : unplacedOf node with
    | error f =>
      have hcovered := covered_unplacedOf node f hn
      constructor
      · intro h
        cases h
        exact absurd hcovered Fault.not_covered_tooLarge
      · rintro ⟨_, _, h, -⟩
        cases h
    | ok n =>
      rw [mapError_ok, ok_bind, ok_bind, placed_eq_tooLarge_iff, farPlace_orEmpty_iff]
      constructor
      · rintro ⟨position, rfl, hfar⟩
        exact ⟨n, position, rfl, rfl, hfar⟩
      · rintro ⟨_, position, -, hposition, hfar⟩
        exact ⟨position, Except.ok.inj hposition, hfar⟩

theorem covered_nodeOf (v : Value) :
    FaultsIn (fun f : Fault => f.Covered ∨ f = .value .tooLarge) (nodeOf v) := by
  have hcoordinate : ∀ name position,
      FaultsIn (fun f : Fault => f.Covered ∨ f = .value .tooLarge)
        ((coordinate name position).mapError .value) := fun name position =>
    .mapError ((covered_coordinate name position).mono fun m hm =>
      hm.imp (fun hm => .inr hm) (congrArg Fault.value))
  refine .bind ((covered_lookup? v "position").mono fun _ => .inl) fun position _ => ?_
  refine .bind ((covered_unplacedOf v).mono fun _ => .inl) fun n _ => ?_
  refine .bind (hcoordinate "x" _) fun x _ => ?_
  exact .bind (hcoordinate "y" _) fun y _ => .ok _

/-! ### Edges -/

theorem covered_listOf (fields : List (Value × Value)) (name : String) :
    FaultsIn Fault.Covered (listOf fields name) := by
  unfold listOf
  split
  · exact .ok _
  · exact .ok _
  · exact .error (.inl rfl)

theorem covered_dataEdgeOf (catalog : Catalog) (colors : Table Rgb) (nodes : Nodes) (index : Nat)
    (v : Value) :
    FaultsIn Fault.Covered (dataEdgeOf catalog (.ofColors colors) nodes index v) := by
  refine .bind (covered_textPart v "source_id") fun source _ => ?_
  refine .bind (covered_textPart v "source_pin") fun sourcePin _ => ?_
  refine .bind (.mapError fun _ _ => .inr rfl) fun handle _ => ?_
  refine .bind ?_ fun stroke _ => ?_
  · obtain ⟨css, hcss⟩ := exists_strokeOf colors handle
    rw [hcss]
    exact .ok css
  · refine .bind (covered_textPart v "target_id") fun target _ => ?_
    exact .bind (covered_textPart v "target_pin") fun targetPin _ => .ok _

theorem covered_routeEdgeOf (index : Nat) (v : Value) :
    FaultsIn Fault.Covered (routeEdgeOf index v) := by
  refine .bind (covered_textPart v "source_id") fun source _ => ?_
  refine .bind (covered_textPart v "source_pin") fun sourcePin _ => ?_
  exact .bind (covered_textPart v "target_id") fun target _ => .ok _

/-! ### Documents -/

theorem kind_asFlowFault {f : Fault} (h : f.Covered) : (asFlowFault f).kind = .flow := by
  unfold asFlowFault
  split
  · rfl
  · next habsorbed =>
    rcases h with h | h
    · exact h
    · exact absurd h habsorbed

/-- Once the nodes are read, all that can fail is told as a fault of the document. -/
theorem graphOfFields_eq_error {catalog : Catalog} {colors : Table Rgb}
    {fields : List (Value × Value)} {f : Fault}
    (h : graphOfFields catalog (.ofColors colors) fields = .error f) :
    f.Covered ∨ ∃ nodes, listOf fields "nodes" = .ok nodes ∧ nodes.mapM nodeOf = .error f := by
  unfold graphOfFields at h
  cases hlist : listOf fields "nodes" with
  | error f' =>
    rw [hlist] at h
    cases h
    exact .inl (covered_listOf fields "nodes" f hlist)
  | ok nodes =>
    cases hnodes : nodes.mapM nodeOf with
    | error f' =>
      rw [hlist, ok_bind, hnodes] at h
      cases h
      exact .inr ⟨nodes, rfl, hnodes⟩
    | ok ns =>
      rw [hlist, ok_bind, hnodes, ok_bind] at h
      refine .inl (FaultsIn.bind (P := Fault.Covered) (covered_listOf fields "edges")
        (fun edges _ => ?_) f h)
      refine .bind (.mapM fun e _ => covered_dataEdgeOf catalog colors _ e.1 e.2) fun wires _ => ?_
      refine .bind (covered_listOf fields "route_edges") fun routes _ => ?_
      exact .bind (.mapM fun e _ => covered_routeEdgeOf e.1 e.2) fun routes _ => .ok _

theorem graphOfFields_eq_tooLarge_iff (catalog : Catalog) (colors : Table Rgb)
    (fields : List (Value × Value)) :
    graphOfFields catalog (.ofColors colors) fields = .error (.value .tooLarge) ↔
      ∃ nodes, listOf fields "nodes" = .ok nodes ∧
        nodes.mapM nodeOf = .error (.value .tooLarge) := by
  constructor
  · intro h
    exact (graphOfFields_eq_error h).resolve_left Fault.not_covered_tooLarge
  · rintro ⟨nodes, hlist, hnodes⟩
    rw [graphOfFields, hlist, ok_bind, hnodes]
    rfl

/-- The first node that a document lists and that cannot be read stands too far away. -/
def FarOff (document : Value) : Prop :=
  ∃ fields before node after, document = .dict fields ∧
    listOf fields "nodes" = .ok (before ++ node :: after) ∧
    (∀ v ∈ before, ∃ n, nodeOf v = .ok n) ∧ FarNode node

theorem asFlowFault_eq_tooLarge_iff {f : Fault} :
    asFlowFault f = .value .tooLarge ↔ f = .value .tooLarge := by
  unfold asFlowFault
  split
  · next habsorbed =>
    constructor
    · intro h
      cases h
    · rintro rfl
      cases habsorbed
  · rfl

theorem ofDocument_eq_tooLarge_iff (catalog : Catalog) (colors : Table Rgb) (document : Value) :
    ofDocument catalog (.ofColors colors) document = .error (.value .tooLarge) ↔
      FarOff document := by
  constructor
  · intro h
    cases document with
    | dict fields =>
      have hgraph : graphOfFields catalog (.ofColors colors) fields =
          .error (.value .tooLarge) := by
        rw [ofDocument] at h
        cases hgraph : graphOfFields catalog (.ofColors colors) fields with
        | ok graph =>
          rw [hgraph] at h
          cases h
        | error f =>
          rw [hgraph, mapError_error] at h
          rw [asFlowFault_eq_tooLarge_iff.1 (Except.error.inj h)]
      obtain ⟨nodes, hlist, hnodes⟩ := (graphOfFields_eq_tooLarge_iff _ _ _).1 hgraph
      obtain ⟨before, node, after, rfl, hbefore, hnode⟩ := mapM_eq_error_iff.1 hnodes
      exact ⟨fields, before, node, after, rfl, hlist, hbefore, nodeOf_eq_tooLarge_iff.1 hnode⟩
    | _ => cases h
  · rintro ⟨fields, before, node, after, rfl, hlist, hbefore, hnode⟩
    have hnodes : (before ++ node :: after).mapM nodeOf = .error (.value .tooLarge) :=
      mapM_eq_error_iff.2 ⟨before, node, after, rfl, hbefore, nodeOf_eq_tooLarge_iff.2 hnode⟩
    have hgraph := (graphOfFields_eq_tooLarge_iff catalog colors fields).2 ⟨_, hlist, hnodes⟩
    rw [ofDocument, hgraph]
    rfl

theorem faults_ofDocument (catalog : Catalog) (colors : Table Rgb) (document : Value) :
    FaultsIn (fun f : Fault => f.kind = .flow ∨ f = .value .tooLarge)
      (ofDocument catalog (.ofColors colors) document) := by
  cases document with
  | dict fields =>
    refine .mapError fun f hf => ?_
    have hcovered : f.Covered ∨ f = .value .tooLarge := by
      rcases graphOfFields_eq_error hf with hcovered | ⟨nodes, -, hnodes⟩
      · exact .inl hcovered
      · exact FaultsIn.mapM (fun v _ => covered_nodeOf v) f hnodes
    exact hcovered.imp kind_asFlowFault asFlowFault_eq_tooLarge_iff.2
  | _ => exact .error (.inl rfl)

/-- Reading a document gives a graph or fails with a fault of the document, just when the document
is not far off; and when it is, the fault is the coordinate's own. -/
theorem ofDocument_fault_iff (catalog : Catalog) (colors : Table Rgb) (document : Value) :
    (((∃ graph, ofDocument catalog (.ofColors colors) document = .ok graph) ∨
        ∃ f, ofDocument catalog (.ofColors colors) document = .error f ∧ f.kind = .flow) ↔
      ¬FarOff document) ∧
    (ofDocument catalog (.ofColors colors) document = .error (.value .tooLarge) ↔
      FarOff document) := by
  have hfar := ofDocument_eq_tooLarge_iff catalog colors document
  refine ⟨?_, hfar⟩
  rw [← hfar]
  have hfaults := faults_ofDocument catalog colors document
  cases hread : ofDocument catalog (.ofColors colors) document with
  | ok graph => simp
  | error f =>
    rw [hread] at hfaults
    rcases hfaults f rfl with hf | rfl
    · have hne : f ≠ .value .tooLarge := by
        rintro rfl
        cases hf
      simp [hf, hne]
    · simp [Fault.kind, Fault.mismatchKind]

/-- One node whose first coordinate is the least whole number that is too large. -/
def distant : Value :=
  .dict [(.str "nodes", .list [.dict [(.str "id", .str "1"), (.str "node_type", .str "Number"),
    (.str "position", .dict [(.str "x", .int Number.overflowBound)])]])]

theorem ofDocument_distant :
    ofDocument ∅ .standard distant = .error (.value .tooLarge) ∧
      (Fault.value .tooLarge).kind ≠ .flow := by
  have hfar : FarOff distant := by
    refine ⟨_, [], _, [], rfl, rfl, by simp, _, _, rfl, rfl, .inl ⟨_, rfl, _, rfl, ?_⟩⟩
    exact Nat.le_of_eq (Int.natAbs_natCast _).symm
  exact ⟨(ofDocument_eq_tooLarge_iff ∅ Palette.standardColors distant).2 hfar, by decide⟩

end Flow
end Patchbay
