import Patchbay.Graph.Connection
import Patchbay.Proofs.Except
import Patchbay.Proofs.Metered
import Patchbay.Proofs.Table

/-!
What handles and decisions are made of.  `inspect_eq_some_iff` and `ofNode_eq_some_iff` say when a
handle is found and what is found.  A `Course` is one way in which a decision may go, with the
samples that are recorded on the way; `exists_course` and `Course.gives` say that the ways are all
there.  `make_eq_accepted_iff` reads off what holds of a wire that is accepted.  Later modules use
these and do not unfold the functions.

The two ends of a wire are treated alike by `Wire.Fits`, which tells how the ends of an accepted
wire go together: the end with free parameters may be on either side.

A decision reads little of the graph.  Of the nodes it reads the two that the wire ends at
(`make_congr`), and the edges say only which of them have to go (`make_among`).
-/

namespace Patchbay

/-! ### Nodes that change -/

/-- The node of an id is still there, as one that `R` relates to it. -/
def Nodes.Keep (R : Node → Node → Prop) (nodes nodes' : Nodes) (id : String) : Prop :=
  ∀ n, nodes.get? id = some n → ∃ n', nodes'.get? id = some n' ∧ R n n'

/-- Only the type of a node is kept. -/
def Node.SameType (n n' : Node) : Prop := n'.nodeType = n.nodeType

theorem Node.SameType.refl (n : Node) : n.SameType n := rfl

namespace Nodes

variable {R : Node → Node → Prop} {nodes nodes' : Nodes} {id : String}

theorem Keep.mono {S : Node → Node → Prop} (h : Keep R nodes nodes' id)
    (himp : ∀ {n n'}, R n n' → S n n') : Keep S nodes nodes' id := by
  intro n hn
  obtain ⟨n', hn', hR⟩ := h n hn
  exact ⟨n', hn', himp hR⟩

theorem keep_insert_of_ne (hrefl : ∀ m, R m m) (n : Node) {j : String} (hj : j ≠ id) :
    Keep R nodes (nodes.insert id n) j :=
  fun m hm => ⟨m, by rw [Table.get?_insert_of_ne nodes hj, hm], hrefl m⟩

theorem keep_insert (hrefl : ∀ m, R m m) {n n' : Node} (hn : nodes.get? id = some n) (hR : R n n')
    (j : String) : Keep R nodes (nodes.insert id n') j := by
  by_cases hj : j = id
  · subst hj
    intro m hm
    rw [hn, Option.some.injEq] at hm
    exact ⟨n', Table.get?_insert_self nodes j n', hm ▸ hR⟩
  · exact keep_insert_of_ne hrefl n' hj

theorem keep_insert_fresh (hrefl : ∀ m, R m m) (n : Node) (hfresh : nodes.get? id = none)
    (j : String) : Keep R nodes (nodes.insert id n) j := by
  by_cases hj : j = id
  · subst hj
    intro m hm
    rw [hfresh] at hm
    cases hm
  · exact keep_insert_of_ne hrefl n hj

theorem keep_erase (hrefl : ∀ m, R m m) {j : String} (hj : j ≠ id) :
    Keep R nodes (nodes.erase id) j :=
  fun m hm => ⟨m, by rw [Table.get?_erase_of_ne nodes hj, hm], hrefl m⟩

end Nodes

theorem Edge.ends_ne_of_not_meets {e : Edge} {id : String} (h : (!e.meets id) = true) :
    e.wire.source ≠ id ∧ e.wire.target ≠ id := by
  simpa [Edge.meets] using h

/-! ### Handles -/

namespace Handle

variable {nodes nodes' : Nodes} {catalog : Catalog} {id : String} {handle : Option String}
  {side : Side} {t : NodeType} {n n' : Node} {name : String} {h : Handle}

theorem inspect_congr (h : nodes'.get? id = nodes.get? id) (catalog : Catalog)
    (handle : Option String) (side : Side) :
    inspect nodes' catalog id handle side = inspect nodes catalog id handle side := by
  unfold inspect
  rw [h]

theorem inspect_eq_some_iff :
    inspect nodes catalog id handle side = .ok (some h) ↔
      ∃ name n t, handle = some name ∧ name ≠ "" ∧ nodes.get? id = some n ∧
        catalog.get? n.nodeType = some t ∧ ofNode t n name side = .ok (some h) := by
  unfold inspect
  split
  · simp
  · simp
  · next name hne =>
    cases hn : nodes.get? id with
    | none => simp
    | some n =>
      cases ht : catalog.get? n.nodeType with
      | none => simp [ht]
      | some t =>
        have hne' : name ≠ "" := hne
        simp [ht, hne']

theorem ofNode_eq_some_iff :
    ofNode t n name side = .ok (some h) ↔
      (name = triggerHandle ∧ .control = h) ∨
      (name ≠ triggerHandle ∧ ∃ p, t.port? name side = some p ∧ p.isRoute = true ∧
        .control = h) ∨
      (name ≠ triggerHandle ∧ ∃ p declared, t.port? name side = some p ∧ p.isRoute = false ∧
        TypeTree.parse p.type = .ok declared ∧
        .data (declared.substitute n.bindings) (freeParams t n) = h) := by
  unfold ofNode
  by_cases htrigger : name = triggerHandle
  · simp [htrigger]
  · cases hp : t.port? name side with
    | none => simp [htrigger]
    | some p =>
      by_cases hroute : p.isRoute = true
      · simp [htrigger, ofPort, hroute, Except.map]
      · cases hparse : TypeTree.parse p.type with
        | error f => simp [htrigger, ofPort, hroute, effectiveType, hparse, Except.map]
        | ok declared => simp [htrigger, ofPort, hroute, effectiveType, hparse, Except.map]

/-- Other bindings never change the kind of a handle. -/
theorem exists_ofNode_kind (n' : Node) (h₀ : ofNode t n name side = .ok (some h)) :
    ∃ h', ofNode t n' name side = .ok (some h') ∧ h'.kind = h.kind := by
  rcases ofNode_eq_some_iff.mp h₀ with ⟨hname, rfl⟩ | ⟨hname, p, hp, hroute, rfl⟩ |
    ⟨hname, p, declared, hp, hroute, hparse, rfl⟩
  · exact ⟨.control, ofNode_eq_some_iff.mpr (.inl ⟨hname, rfl⟩), rfl⟩
  · exact ⟨.control, ofNode_eq_some_iff.mpr (.inr (.inl ⟨hname, p, hp, hroute, rfl⟩)), rfl⟩
  · exact ⟨_, ofNode_eq_some_iff.mpr
      (.inr (.inr ⟨hname, p, declared, hp, hroute, hparse, rfl⟩)), rfl⟩

theorem exists_inspect_of_keep (hkeep : nodes.Keep Node.SameType nodes' id)
    (hh : inspect nodes catalog id handle side = .ok (some h)) :
    ∃ h', inspect nodes' catalog id handle side = .ok (some h') ∧ h'.kind = h.kind := by
  obtain ⟨name, n, t, hname, hne, hn, ht, hof⟩ := inspect_eq_some_iff.mp hh
  obtain ⟨n', hn', htype⟩ := hkeep n hn
  obtain ⟨h', hof', hkind⟩ := exists_ofNode_kind n' hof
  rw [← htype] at ht
  exact ⟨h', inspect_eq_some_iff.mpr ⟨name, n', t, hname, hne, hn', ht, hof'⟩, hkind⟩

end Handle

/-- A palette of colors has one for every type. -/
theorem Color.exists_ofSpelling (colors : Table Rgb) (spelling : String) :
    ∃ c, Color.ofSpelling (.ofColors colors) spelling = .ok c := by
  rw [Color.ofSpelling, Palette.ofColors, Table.get?_map]
  cases colors.get? spelling with
  | none => exact ⟨_, rfl⟩
  | some c => exact ⟨c, rfl⟩

/-! ### Ends of wires -/

def Side.opposite : Side → Side
  | .output => .input
  | .input => .output

namespace Wire

/-- The node at an end.  Wires lead from outputs to inputs. -/
def node (w : Wire) : Side → String
  | .output => w.source
  | .input => w.target

def handle (w : Wire) : Side → Option String
  | .output => w.sourceHandle
  | .input => w.targetHandle

def inspect (catalog : Catalog) (nodes : Nodes) (w : Wire) (side : Side) :
    Except TypeTree.SyntaxFault (Option Handle) :=
  Handle.inspect nodes catalog (w.node side) (w.handle side) side

theorem inspect_insert_of_ne {catalog : Catalog} {nodes : Nodes} {w : Wire} {side : Side}
    {id : String} (hne : w.node side ≠ id) (n : Node) :
    w.inspect catalog (nodes.insert id n) side = w.inspect catalog nodes side :=
  Handle.inspect_congr (Table.get?_insert_of_ne nodes hne n) ..

/-- How the ends of an accepted wire go together, and the new bindings that come of it. -/
inductive Fits (catalog : Catalog) (nodes : Nodes) (w : Wire) : Option Rebinding → Prop
  | control (ends : ∀ side, w.inspect catalog nodes side = .ok (some .control)) :
      Fits catalog nodes w none
  | settled (type : Side → TypeTree)
      (ends : ∀ side, w.inspect catalog nodes side = .ok (some (.data (type side) [])))
      (agrees : (type .output).agrees (type .input) = true) : Fits catalog nodes w none
  | resolved (side : Side) {type other : TypeTree} {free : List String} {b : Bindings}
      (here : w.inspect catalog nodes side = .ok (some (.data type free))) (isFree : free ≠ [])
      (there : w.inspect catalog nodes side.opposite = .ok (some (.data other [])))
      (found : TypeTree.resolve free type other = .ok b) :
      Fits catalog nodes w (some (Decision.rebindingOf nodes (w.node side) b))

end Wire

/-! ### Decisions -/

namespace Decision

variable {theme : Theme} {catalog : Catalog} {nodes nodes' : Nodes} {edges : List Edge}
  {wire : Wire} {edge : Edge} {rebinding : Option Rebinding} {evicted : List String} {s t : Handle}

def noted : Except Reason (Option Rebinding) → List Sample
  | .error (.resolutionFailed o) => [.unresolvable o]
  | _ => []

theorem exists_gives_settle (nodes : Nodes) (id : String) (free : List String)
    (type other : TypeTree) :
    ∃ o, (settle nodes id free type other).Gives (.ok o) (noted o) := by
  unfold settle
  cases TypeTree.resolve free type other with
  | ok b => exact ⟨_, .pure _⟩
  | error o => exact ⟨.error (.resolutionFailed o), (Metered.Gives.emit _).bind (.pure _)⟩

theorem exists_gives_checkHandles (wire : Wire) (nodes : Nodes) (s t : Handle) :
    ∃ o, (checkHandles wire nodes s t).Gives (.ok o) (noted o) := by
  cases s with
  | control => cases t <;> exact ⟨_, .pure _⟩
  | data source sf =>
    cases t with
    | control => exact ⟨_, .pure _⟩
    | data target tf =>
      rw [checkHandles, checkTypes]
      cases sf.isEmpty <;> cases tf.isEmpty
      · exact ⟨_, .pure _⟩
      · exact exists_gives_settle ..
      · exact exists_gives_settle ..
      · by_cases h : source.agrees target = true <;> simp only [h] <;> exact ⟨_, .pure _⟩

theorem gives_reject (reason : Reason) :
    (reject reason).Gives (.ok (.rejected reason)) [.rejected reason] :=
  (Metered.Gives.emit _).bind (.pure _)

def evictions (evicted : List String) : List Sample :=
  if evicted.isEmpty then [] else [.evicted evicted]

theorem gives_accept {css : Option String} (hcss : stroke theme s = .ok css) (wire : Wire)
    (edges : List Edge) (rebinding : Option Rebinding) :
    (accept theme wire edges s rebinding).Gives
      (.ok (.accepted ⟨wire.edgeId, wire, s.kind == .control, css⟩ rebinding
        (evictedBy wire s.kind edges)))
      (.accepted s.kind :: evictions (evictedBy wire s.kind edges)) := by
  rw [accept, hcss]
  refine (Metered.Gives.lift _).bind ((Metered.Gives.emit _).bind ?_)
  by_cases h : (evictedBy wire s.kind edges).isEmpty = true
  · simp only [h]
    exact .pure _
  · simp only [h]
    exact (Metered.Gives.emit _).bind (.pure _)

/-- A stroke that fails is found before anything is recorded. -/
theorem gives_accept_of_error {m : Value.Mismatch} (hcss : stroke theme s = .error m) (wire : Wire)
    (edges : List Edge) (rebinding : Option Rebinding) :
    (accept theme wire edges s rebinding).Gives (.error (.value m)) [] := by
  rw [accept, hcss]
  exact (Metered.Gives.lift _).bind_error

/-- The ways in which a decision may go, with what it gives and what is recorded. -/
inductive Course (theme : Theme) (catalog : Catalog) (nodes : Nodes) (edges : List Edge)
    (wire : Wire) : Except Fault Decision → List Sample → Prop
  | sourceFault {f : TypeTree.SyntaxFault}
      (source : wire.inspect catalog nodes .output = .error f) :
      Course theme catalog nodes edges wire (.error (.expression f)) []
  | targetFault {s : Option Handle} {f : TypeTree.SyntaxFault}
      (source : wire.inspect catalog nodes .output = .ok s)
      (target : wire.inspect catalog nodes .input = .error f) :
      Course theme catalog nodes edges wire (.error (.expression f)) []
  | unknown {s t : Option Handle} (source : wire.inspect catalog nodes .output = .ok s)
      (target : wire.inspect catalog nodes .input = .ok t) (missing : s = none ∨ t = none) :
      Course theme catalog nodes edges wire (.ok (.rejected .unknownHandle))
        [.rejected .unknownHandle]
  | refused {s t : Handle} {reason : Reason}
      (source : wire.inspect catalog nodes .output = .ok (some s))
      (target : wire.inspect catalog nodes .input = .ok (some t))
      (checked : (checkHandles wire nodes s t).Gives (.ok (.error reason))
        (noted (.error reason))) :
      Course theme catalog nodes edges wire (.ok (.rejected reason))
        (noted (.error reason) ++ [.rejected reason])
  | strokeFault {s t : Handle} {rebinding : Option Rebinding} {m : Value.Mismatch}
      (source : wire.inspect catalog nodes .output = .ok (some s))
      (target : wire.inspect catalog nodes .input = .ok (some t))
      (checked : (checkHandles wire nodes s t).Gives (.ok (.ok rebinding)) [])
      (colored : stroke theme s = .error m) :
      Course theme catalog nodes edges wire (.error (.value m)) []
  | accepted {s t : Handle} {rebinding : Option Rebinding} {css : Option String}
      (source : wire.inspect catalog nodes .output = .ok (some s))
      (target : wire.inspect catalog nodes .input = .ok (some t))
      (checked : (checkHandles wire nodes s t).Gives (.ok (.ok rebinding)) [])
      (colored : stroke theme s = .ok css) :
      Course theme catalog nodes edges wire
        (.ok (.accepted ⟨wire.edgeId, wire, s.kind == .control, css⟩ rebinding
          (evictedBy wire s.kind edges)))
        (.accepted s.kind :: evictions (evictedBy wire s.kind edges))

theorem validate_eq (theme : Theme) (catalog : Catalog) (nodes : Nodes) (edges : List Edge)
    (wire : Wire) : validate theme catalog nodes edges wire =
      liftM ((wire.inspect catalog nodes .output).mapError Fault.expression) >>= fun source =>
      liftM ((wire.inspect catalog nodes .input).mapError Fault.expression) >>= fun target =>
      judge theme nodes edges wire source target := rfl

/-- Looking up the handles records nothing. -/
theorem gives_of_judge {source target : Option Handle} {a : Except Fault Decision}
    {xs : List Sample} (hsource : wire.inspect catalog nodes .output = .ok source)
    (htarget : wire.inspect catalog nodes .input = .ok target)
    (h : (judge theme nodes edges wire source target).Gives a xs) :
    (validate theme catalog nodes edges wire).Gives a xs := by
  rw [validate_eq, hsource, htarget]
  exact (Metered.Gives.lift _).bind ((Metered.Gives.lift _).bind h)

theorem Course.gives {a : Except Fault Decision} {xs : List Sample}
    (h : Course theme catalog nodes edges wire a xs) :
    (validate theme catalog nodes edges wire).Gives a xs := by
  cases h with
  | sourceFault source =>
    rw [validate_eq, source]
    exact (Metered.Gives.lift _).bind_error
  | targetFault source target =>
    rw [validate_eq, source, target]
    exact (Metered.Gives.lift _).bind (Metered.Gives.lift _).bind_error
  | @unknown s t source target missing =>
    have hjudge : judge theme nodes edges wire s t = reject .unknownHandle := by
      rcases missing with rfl | rfl
      · rfl
      · cases s <;> rfl
    refine gives_of_judge source target ?_
    rw [hjudge]
    exact gives_reject _
  | refused source target checked =>
    exact gives_of_judge source target (checked.bind (gives_reject _))
  | strokeFault source target checked colored =>
    exact gives_of_judge source target (checked.bind (gives_accept_of_error colored wire edges _))
  | accepted source target checked colored =>
    exact gives_of_judge source target (checked.bind (gives_accept colored wire edges _))

theorem exists_course (theme : Theme) (catalog : Catalog) (nodes : Nodes) (edges : List Edge)
    (wire : Wire) : ∃ a xs, Course theme catalog nodes edges wire a xs := by
  cases hs : wire.inspect catalog nodes .output with
  | error f => exact ⟨_, _, .sourceFault hs⟩
  | ok s =>
    cases ht : wire.inspect catalog nodes .input with
    | error f => exact ⟨_, _, .targetFault hs ht⟩
    | ok t =>
      cases s with
      | none => exact ⟨_, _, .unknown hs ht (.inl rfl)⟩
      | some s =>
        cases t with
        | none => exact ⟨_, _, .unknown hs ht (.inr rfl)⟩
        | some t =>
          obtain ⟨o, ho⟩ := exists_gives_checkHandles wire nodes s t
          cases o with
          | error reason => exact ⟨_, _, .refused hs ht ho⟩
          | ok rebinding =>
            cases hcss : stroke theme s with
            | error m => exact ⟨_, _, .strokeFault hs ht ho hcss⟩
            | ok css => exact ⟨_, _, .accepted hs ht ho hcss⟩

theorem course_make (theme : Theme) (catalog : Catalog) (nodes : Nodes) (edges : List Edge)
    (wire : Wire) :
    ∃ xs, Course theme catalog nodes edges wire (make theme catalog nodes edges wire) xs := by
  obtain ⟨a, xs, h⟩ := exists_course theme catalog nodes edges wire
  rw [make, h.gives.result_eq]
  exact ⟨xs, h⟩

/-- Every fault comes before the first sample. -/
theorem Course.eq_nil_of_fault {f : Fault} {xs : List Sample}
    (h : Course theme catalog nodes edges wire (.error f) xs) : xs = [] := by
  cases h <;> rfl

theorem make_eq_accepted_iff :
    make theme catalog nodes edges wire = .ok (.accepted edge rebinding evicted) ↔
      ∃ s t css,
        Handle.inspect nodes catalog wire.source wire.sourceHandle .output = .ok (some s) ∧
        Handle.inspect nodes catalog wire.target wire.targetHandle .input = .ok (some t) ∧
        (checkHandles wire nodes s t).Gives (.ok (.ok rebinding)) [] ∧ stroke theme s = .ok css ∧
        { id := wire.edgeId, wire, animated := s.kind == .control, stroke := css } = edge ∧
        evictedBy wire s.kind edges = evicted := by
  constructor
  · intro h
    obtain ⟨xs, hcourse⟩ := course_make theme catalog nodes edges wire
    rw [h] at hcourse
    cases hcourse with
    | accepted source target checked colored =>
      exact ⟨_, _, _, source, target, checked, colored, rfl, rfl⟩
  · rintro ⟨s, t, css, source, target, checked, colored, rfl, rfl⟩
    exact (Course.accepted source target checked colored).gives.result_eq

theorem kind_eq_of_checkHandles
    (h : (checkHandles wire nodes s t).Gives (.ok (.ok rebinding)) []) : s.kind = t.kind := by
  have hresult := h.result_eq
  cases s with
  | control =>
    cases t with
    | control => rfl
    | data target tf => cases hresult
  | data source sf =>
    cases t with
    | control => cases hresult
    | data target tf => rfl

theorem settle_eq_ok_iff {id : String} {free : List String} {type other : TypeTree} :
    (settle nodes id free type other).Gives (.ok (.ok rebinding)) [] ↔
      ∃ b, TypeTree.resolve free type other = .ok b ∧
        some (rebindingOf nodes id b) = rebinding := by
  unfold settle
  cases TypeTree.resolve free type other with
  | ok b =>
    constructor
    · intro h
      cases h.result_eq
      exact ⟨b, rfl, rfl⟩
    · rintro ⟨_, hb, rfl⟩
      cases hb
      exact .pure _
  | error o =>
    constructor
    · intro h
      cases h.result_eq
    · rintro ⟨_, h, -⟩
      cases h

/-- The three ways in which data may flow: both types are settled and agree, or one side has free
parameters and is resolved against the other. -/
theorem checkTypes_eq_ok_iff {source target : TypeTree} {sourceFree targetFree : List String} :
    (checkTypes wire nodes source target sourceFree targetFree).Gives (.ok (.ok rebinding)) [] ↔
      (sourceFree = [] ∧ targetFree = [] ∧ source.agrees target = true ∧ none = rebinding) ∨
      (sourceFree ≠ [] ∧ targetFree = [] ∧ ∃ b,
        TypeTree.resolve sourceFree source target = .ok b ∧
        some (rebindingOf nodes wire.source b) = rebinding) ∨
      (sourceFree = [] ∧ targetFree ≠ [] ∧ ∃ b,
        TypeTree.resolve targetFree target source = .ok b ∧
        some (rebindingOf nodes wire.target b) = rebinding) := by
  rw [← settle_eq_ok_iff, ← settle_eq_ok_iff]
  unfold checkTypes
  cases sourceFree with
  | nil =>
    cases targetFree with
    | nil =>
      by_cases h : source.agrees target = true <;> simp [h, Metered.gives_pure_iff]
    | cons q qs => simp
  | cons p ps =>
    cases targetFree with
    | nil => simp
    | cons q qs => simp [Metered.gives_pure_iff]

theorem wire_of_accepted
    (hd : make theme catalog nodes edges wire = .ok (.accepted edge rebinding evicted)) :
    edge.wire = wire := by
  obtain ⟨_, _, _, -, -, -, -, rfl, -⟩ := make_eq_accepted_iff.mp hd
  rfl

theorem exists_inspect_of_accepted
    (hd : make theme catalog nodes edges wire = .ok (.accepted edge rebinding evicted))
    (side : Side) : ∃ x, wire.inspect catalog nodes side = .ok (some x) := by
  obtain ⟨s, t, -, hs, ht, -⟩ := make_eq_accepted_iff.mp hd
  cases side with
  | output => exact ⟨s, hs⟩
  | input => exact ⟨t, ht⟩

theorem fits_of_accepted
    (hd : make theme catalog nodes edges wire = .ok (.accepted edge rebinding evicted)) :
    wire.Fits catalog nodes rebinding := by
  obtain ⟨s, t, css, hs, ht, hcheck, -⟩ := make_eq_accepted_iff.mp hd
  cases s with
  | control =>
    cases t with
    | control =>
      cases hcheck.result_eq
      exact .control fun side => by cases side <;> assumption
    | data target tf => cases hcheck.result_eq
  | data source sf =>
    cases t with
    | control => cases hcheck.result_eq
    | data target tf =>
      rcases checkTypes_eq_ok_iff.mp hcheck with ⟨rfl, rfl, hagrees, rfl⟩ |
        ⟨hsf, rfl, b, hb, rfl⟩ | ⟨rfl, htf, b, hb, rfl⟩
      · refine .settled (fun side => side.casesOn source target) (fun side => ?_) hagrees
        cases side <;> assumption
      · exact .resolved .output hs hsf ht hb
      · exact .resolved .input ht htf hs hb

/-- New bindings are made at an end of the wire, and the node is there. -/
theorem exists_end_of_rebinding {r : Rebinding}
    (hd : make theme catalog nodes edges wire = .ok (.accepted edge (some r) evicted)) :
    ∃ side n, r.node = wire.node side ∧ nodes.get? r.node = some n := by
  cases fits_of_accepted hd with
  | resolved side here isFree there found =>
    obtain ⟨_, n, _, -, -, hn, -⟩ := Handle.inspect_eq_some_iff.mp here
    exact ⟨side, n, rfl, hn⟩

theorem nodesAfter_rebindingOf {id : String} {n : Node} {b : Bindings}
    (hn : nodes.get? id = some n) :
    (accepted edge (some (rebindingOf nodes id b)) evicted).nodesAfter nodes =
      nodes.insert id { n with bindings := b.union n.bindings } := by
  simp [nodesAfter, rebind, rebindingOf, hn]

/-- A decision touches nothing but bindings. -/
theorem keep_nodesAfter {R : Node → Node → Prop} (hbind : ∀ n b, R n { n with bindings := b })
    (d : Decision) (nodes : Nodes) (id : String) : nodes.Keep R (d.nodesAfter nodes) id := by
  have hrefl : ∀ n, R n n := fun n => hbind n n.bindings
  have hsame : nodes.Keep R nodes id := fun n hn => ⟨n, hn, hrefl n⟩
  cases d with
  | rejected reason => exact hsame
  | accepted edge rebinding evicted =>
    cases rebinding with
    | none => exact hsame
    | some r =>
      cases hn : nodes.get? r.node with
      | none => simpa [nodesAfter, rebind, hn] using hsame
      | some n =>
        simp only [nodesAfter, rebind, hn, Option.map_some, Option.getD_some]
        exact Nodes.keep_insert hrefl hn (hbind n r.bindings) id

theorem exists_stroke (colors : Table Rgb) (unresolved : Rgb) (h : Handle) :
    ∃ css, stroke ⟨.ofColors colors, unresolved⟩ h = .ok css := by
  cases h with
  | control => exact ⟨none, rfl⟩
  | data type free =>
    obtain ⟨c, hc⟩ := Color.exists_ofSpelling colors type.format
    cases free with
    | nil => exact ⟨some c.css, by simp [stroke, hc, bind, Except.bind, pure, Except.pure]⟩
    | cons p ps => exact ⟨some unresolved.css, rfl⟩

theorem exists_accepted_of_fits (h : wire.Fits catalog nodes rebinding) (colors : Table Rgb)
    (unresolved : Rgb) (edges : List Edge) :
    ∃ edge evicted, make ⟨.ofColors colors, unresolved⟩ catalog nodes edges wire =
      .ok (.accepted edge rebinding evicted) := by
  suffices hends : ∃ s t,
      Handle.inspect nodes catalog wire.source wire.sourceHandle .output = .ok (some s) ∧
      Handle.inspect nodes catalog wire.target wire.targetHandle .input = .ok (some t) ∧
      (checkHandles wire nodes s t).Gives (.ok (.ok rebinding)) [] by
    obtain ⟨s, t, hs, ht, hcheck⟩ := hends
    obtain ⟨css, hcss⟩ := exists_stroke colors unresolved s
    exact ⟨_, _, make_eq_accepted_iff.mpr ⟨s, t, css, hs, ht, hcheck, hcss, rfl, rfl⟩⟩
  cases h with
  | control ends => exact ⟨_, _, ends .output, ends .input, .pure _⟩
  | settled type ends agrees =>
    refine ⟨_, _, ends .output, ends .input, ?_⟩
    rw [checkHandles, checkTypes_eq_ok_iff]
    exact .inl ⟨rfl, rfl, agrees, rfl⟩
  | resolved side here isFree there found =>
    cases side with
    | output =>
      exact ⟨_, _, here, there,
        checkTypes_eq_ok_iff.mpr (.inr (.inl ⟨isFree, rfl, _, found, rfl⟩))⟩
    | input =>
      exact ⟨_, _, there, here,
        checkTypes_eq_ok_iff.mpr (.inr (.inr ⟨rfl, isFree, _, found, rfl⟩))⟩

end Decision

/-! ### What a decision reads -/

/-- Whether an edge goes when a new one comes.  A route takes the place of the one that leaves its
source, and a data edge of the one that enters its target. -/
def Edge.displaces (new e : Edge) : Bool :=
  if new.animated then e.leaves new.wire.source new.wire.sourceHandle
  else e.enters new.wire.target new.wire.targetHandle

namespace Decision

variable {catalog : Catalog} {nodes nodes' : Nodes} {wire : Wire}

/-- What a decision says of its wire: the reason to reject it, or its edge and the new bindings. -/
def verdict : Decision → Except Reason (Edge × Option Rebinding)
  | .rejected reason => .error reason
  | .accepted edge rebinding _ => .ok (edge, rebinding)

/-- The same verdict among other edges. -/
def among (edges : List Edge) : Decision → Decision
  | .rejected reason => .rejected reason
  | .accepted edge rebinding _ =>
    .accepted edge rebinding ((edges.filter edge.displaces).map Edge.id)

theorem verdict_among (edges : List Edge) (d : Decision) : (d.among edges).verdict = d.verdict := by
  cases d <;> rfl

theorem checkHandles_congr
    (hends : ∀ side, nodes'.get? (wire.node side) = nodes.get? (wire.node side))
    (s t : Handle) : checkHandles wire nodes' s t = checkHandles wire nodes s t := by
  have hsource : nodes'.get? wire.source = nodes.get? wire.source := hends .output
  have htarget : nodes'.get? wire.target = nodes.get? wire.target := hends .input
  cases s <;> cases t <;>
    simp only [checkHandles, checkTypes, settle, rebindingOf, hsource, htarget]

theorem make_congr (theme : Theme) (catalog : Catalog) (edges : List Edge)
    (hends : ∀ side, nodes'.get? (wire.node side) = nodes.get? (wire.node side)) :
    make theme catalog nodes' edges wire = make theme catalog nodes edges wire := by
  have hsource : Handle.inspect nodes' catalog wire.source wire.sourceHandle .output =
      Handle.inspect nodes catalog wire.source wire.sourceHandle .output :=
    Handle.inspect_congr (hends .output) ..
  have htarget : Handle.inspect nodes' catalog wire.target wire.targetHandle .input =
      Handle.inspect nodes catalog wire.target wire.targetHandle .input :=
    Handle.inspect_congr (hends .input) ..
  have hjudge : ∀ s t, judge theme nodes' edges wire s t = judge theme nodes edges wire s t := by
    intro s t
    cases s <;> cases t <;> simp only [judge, checkHandles_congr hends]
  simp only [make, validate, hsource, htarget, hjudge]

theorem evictedBy_eq_displaced (wire : Wire) (kind : HandleKind) (css : Option String)
    (edges : List Edge) : evictedBy wire kind edges =
      (edges.filter (Edge.displaces ⟨wire.edgeId, wire, kind == .control, css⟩)).map Edge.id := by
  cases kind <;> rfl

theorem make_among (theme : Theme) (catalog : Catalog) (nodes : Nodes) (edges edges' : List Edge)
    (wire : Wire) :
    make theme catalog nodes edges' wire =
      (make theme catalog nodes edges wire).map (among edges') := by
  obtain ⟨a, xs, h⟩ := exists_course theme catalog nodes edges wire
  rw [make, make, h.gives.result_eq]
  cases h with
  | sourceFault source => exact (Course.sourceFault source).gives.result_eq
  | targetFault source target => exact (Course.targetFault source target).gives.result_eq
  | unknown source target missing => exact (Course.unknown source target missing).gives.result_eq
  | refused source target checked => exact (Course.refused source target checked).gives.result_eq
  | strokeFault source target checked colored =>
    exact (Course.strokeFault source target checked colored).gives.result_eq
  | @accepted s t rebinding css source target checked colored =>
    rw [(Course.accepted source target checked colored).gives.result_eq,
      evictedBy_eq_displaced wire s.kind css edges']
    rfl

end Decision

/-! ### Audits -/

namespace Audit

variable {catalog : Catalog} {all rest : List Edge} {nodes : Nodes} {e : Edge} {d : Decision}
  {xs ys : List Sample}

theorem gives_replay_cons {later : Except Fault (List (Edge × Decision))}
    (hd : (Decision.validate .standard catalog nodes (all.filter fun o => o.id != e.id)
      e.wire).Gives (.ok d) xs)
    (hrest : (replay catalog all (d.nodesAfter nodes) rest).Gives later ys) :
    (replay catalog all nodes (e :: rest)).Gives (later.map ((e, d) :: ·)) (xs ++ ys) :=
  hd.bind (hrest.bind_pure _)

theorem exists_gives_replay (catalog : Catalog) (all : List Edge) (nodes : Nodes)
    (edges : List Edge) : ∃ a xs, (replay catalog all nodes edges).Gives a xs := by
  induction edges generalizing nodes with
  | nil => exact ⟨_, _, .pure []⟩
  | cons e rest ih =>
    obtain ⟨a, xs, h⟩ := Decision.exists_course .standard catalog nodes
      (all.filter fun o => o.id != e.id) e.wire
    cases a with
    | error f => exact ⟨_, _, h.gives.bind_error⟩
    | ok d =>
      obtain ⟨later, ys, hrest⟩ := ih (d.nodesAfter nodes)
      exact ⟨_, _, gives_replay_cons h.gives hrest⟩

theorem result_replay_cons (catalog : Catalog) (all : List Edge) (nodes : Nodes) (e : Edge)
    (rest : List Edge) : (replay catalog all nodes (e :: rest)).result =
      Decision.make .standard catalog nodes (all.filter fun o => o.id != e.id) e.wire >>= fun d =>
        (replay catalog all (d.nodesAfter nodes) rest).result.map ((e, d) :: ·) := by
  obtain ⟨a, xs, h⟩ := Decision.exists_course .standard catalog nodes
    (all.filter fun o => o.id != e.id) e.wire
  rw [Decision.make, h.gives.result_eq]
  cases a with
  | error f => exact h.gives.bind_error.result_eq
  | ok d =>
    obtain ⟨later, ys, hrest⟩ := exists_gives_replay catalog all (d.nodesAfter nodes) rest
    rw [ok_bind, hrest.result_eq]
    exact (gives_replay_cons h.gives hrest).result_eq

end Audit
end Patchbay
