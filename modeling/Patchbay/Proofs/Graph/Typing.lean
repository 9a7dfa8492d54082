import Patchbay.Proofs.Graph.Decision
import Patchbay.Proofs.TypeTree.Substitution

/-!
Wires that stand.  In a catalog that is first-order and well-scoped, the type of a handle without
free parameters mentions no parameter at all, so bindings that are made later never change it.  A
wire `Stands` if its ends have met in such a type; that is kept when nodes get more bindings, and
it is what an audit asks of a wire.  Nodes on which all wires stand are audited without an issue
(`issues_of_stands`), and the bindings that an audit without an issue settles on its way make all
wires stand at once (`exists_stands_of_issues`).
-/

namespace Patchbay

/-! ### Catalogs -/

def NodeType.portTypes (t : NodeType) : List TypeTree :=
  (t.inputs ++ t.outputs).filterMap fun p => (TypeTree.parse p.type).toOption

theorem NodeType.mem_ports {t : NodeType} {name : String} {side : Side} {p : Port}
    (hp : t.port? name side = some p) : p ∈ t.inputs ++ t.outputs := by
  have hmem : p ∈ t.ports side := List.mem_of_find?_eq_some hp
  cases side with
  | output => exact List.mem_append_right _ hmem
  | input => exact List.mem_append_left _ hmem

theorem NodeType.mem_portTypes {t : NodeType} {name : String} {side : Side} {p : Port}
    {d : TypeTree} (hp : t.port? name side = some p) (hd : TypeTree.parse p.type = .ok d) :
    d ∈ t.portTypes :=
  List.mem_filterMap.mpr ⟨p, mem_ports hp, by rw [hd]; rfl⟩

namespace Catalog

/-- The names that some node type has for a parameter. -/
def declared (catalog : Catalog) : List String := catalog.values.flatMap NodeType.params

/-- No parameter has arguments in the type of a port. -/
def FirstOrder (catalog : Catalog) : Prop :=
  ∀ t ∈ catalog.values, ∀ d ∈ t.portTypes, ∀ l ∈ d.appliedLabels, l ∉ catalog.declared

/-- A parameter of some node type stands in the type of a port only if it is a parameter of the
node type that the port is of. -/
def WellScoped (catalog : Catalog) : Prop :=
  ∀ t ∈ catalog.values, ∀ d ∈ t.portTypes, ∀ l ∈ d.labels, l ∈ catalog.declared → l ∈ t.params

instance (catalog : Catalog) : Decidable catalog.FirstOrder :=
  inferInstanceAs (Decidable (∀ t ∈ catalog.values, ∀ d ∈ t.portTypes, ∀ l ∈ d.appliedLabels,
    l ∉ catalog.declared))

instance (catalog : Catalog) : Decidable catalog.WellScoped :=
  inferInstanceAs (Decidable (∀ t ∈ catalog.values, ∀ d ∈ t.portTypes, ∀ l ∈ d.labels,
    l ∈ catalog.declared → l ∈ t.params))

variable {catalog : Catalog} {key : String} {t : NodeType}

theorem mem_values (ht : catalog.get? key = some t) : t ∈ catalog.values :=
  List.mem_map_of_mem (f := Prod.snd) (Table.get?_eq_some_iff.mp ht)

theorem mem_declared (ht : catalog.get? key = some t) {p : String} (hp : p ∈ t.params) :
    p ∈ catalog.declared := List.mem_flatMap.mpr ⟨t, mem_values ht, hp⟩

end Catalog

/-! ### Bindings -/

/-- What holds of every type that is bound on a node. -/
def Nodes.Bound (Q : TypeTree → Prop) (nodes : Nodes) : Prop :=
  ∀ id n, nodes.get? id = some n → ∀ p x, n.bindings.get? p = some x → Q x

/-- No bound type mentions a declared name. -/
abbrev Nodes.Ground (catalog : Catalog) : Nodes → Prop :=
  Nodes.Bound (TypeTree.Ground catalog.declared)

def Node.Ground (catalog : Catalog) (n : Node) : Prop :=
  ∀ p x, n.bindings.get? p = some x → x.Ground catalog.declared

/-- A node of the same type, on which more declared names may be bound. -/
structure Node.Extended (catalog : Catalog) (n n' : Node) : Prop where
  sameType : n.SameType n'
  keeps : ∀ p x, n.bindings.get? p = some x → n'.bindings.get? p = some x
  adds : ∀ p x, n'.bindings.get? p = some x → n.bindings.get? p = some x ∨ p ∈ catalog.declared

theorem Node.Extended.refl {catalog : Catalog} (n : Node) : n.Extended catalog n :=
  ⟨rfl, fun _ _ h => h, fun _ _ h => .inl h⟩

theorem Node.Extended.trans {catalog : Catalog} {n m k : Node} (h : n.Extended catalog m)
    (h' : m.Extended catalog k) : n.Extended catalog k where
  sameType := h'.sameType.trans h.sameType
  keeps := fun p x hx => h'.keeps p x (h.keeps p x hx)
  adds := by
    intro p x hx
    rcases h'.adds p x hx with hx | hdeclared
    · exact h.adds p x hx
    · exact .inr hdeclared

/-- More bindings leave a ground type as it is. -/
theorem Node.Extended.substitute_eq {catalog : Catalog} {n n' : Node} (hext : n.Extended catalog n')
    {d : TypeTree} (hground : (d.substitute n.bindings).Ground catalog.declared) :
    d.substitute n'.bindings = d.substitute n.bindings := by
  refine TypeTree.substitute_of_extends hext.keeps d fun l hl hnone => ?_
  rw [Option.eq_none_iff_forall_ne_some]
  intro x hx
  rcases hext.adds l x hx with hold | hdeclared
  · rw [hnone] at hold
    cases hold
  · exact hground l hl hdeclared

theorem Nodes.Bound.insert {Q : TypeTree → Prop} {nodes : Nodes} (h : nodes.Bound Q) {id : String}
    {n : Node} (hn : ∀ p x, n.bindings.get? p = some x → Q x) :
    Nodes.Bound Q (nodes.insert id n) := by
  intro j m hm
  rw [Table.get?_insert] at hm
  split at hm
  · injection hm with hm
    exact hm ▸ hn
  · exact h j m hm

/-- The same nodes in the same order, with at least the same bindings. -/
structure Nodes.Binds (nodes nodes' : Nodes) : Prop where
  keys : nodes'.keys = nodes.keys
  node : ∀ id n, nodes.get? id = some n → ∃ b, nodes'.get? id = some { n with bindings := b } ∧
    ∀ p x, n.bindings.get? p = some x → b.get? p = some x

theorem Nodes.Binds.refl (nodes : Nodes) : nodes.Binds nodes :=
  ⟨rfl, fun _ n hn => ⟨n.bindings, hn, fun _ _ hx => hx⟩⟩

theorem Nodes.Binds.trans {nodes nodes₁ nodes₂ : Nodes} (h : nodes.Binds nodes₁)
    (h' : nodes₁.Binds nodes₂) : nodes.Binds nodes₂ := by
  refine ⟨h'.keys.trans h.keys, fun id n hn => ?_⟩
  obtain ⟨b, hb, hkeeps⟩ := h.node id n hn
  obtain ⟨b', hb', hkeeps'⟩ := h'.node id _ hb
  exact ⟨b', hb', fun p x hx => hkeeps' p x (hkeeps p x hx)⟩

theorem Nodes.binds_insert {nodes : Nodes} {id : String} {n : Node} (hn : nodes.get? id = some n)
    {b : Bindings} (hb : ∀ p x, n.bindings.get? p = some x → b.get? p = some x) :
    nodes.Binds (nodes.insert id { n with bindings := b }) := by
  refine ⟨Table.keys_insert_of_get? hn _, fun j m hm => ?_⟩
  by_cases hj : j = id
  · subst hj
    rw [hn, Option.some.injEq] at hm
    subst hm
    exact ⟨b, Table.get?_insert_self nodes j _, hb⟩
  · exact ⟨m.bindings, by rw [Table.get?_insert_of_ne nodes hj, hm], fun _ _ hx => hx⟩

/-! ### Handles -/

namespace Handle

variable {catalog : Catalog} {nodes nodes' : Nodes} {id : String} {handle : Option String}
  {side : Side}

/-- The port behind a data handle: its node, the type of the node and its own declared type. -/
structure PortOf (catalog : Catalog) (nodes : Nodes) (id : String) (handle : Option String)
    (side : Side) (n : Node) (t : NodeType) (d : TypeTree) : Prop where
  node : nodes.get? id = some n
  nodeType : catalog.get? n.nodeType = some t
  declared : d ∈ t.portTypes
  writable : d.Writable
  inspect_eq : ∀ nodes' n', nodes'.get? id = some n' → n.SameType n' →
    inspect nodes' catalog id handle side =
      .ok (some (.data (d.substitute n'.bindings) (freeParams t n')))

theorem exists_port {type : TypeTree} {free : List String}
    (h : inspect nodes catalog id handle side = .ok (some (.data type free))) :
    ∃ n t d, PortOf catalog nodes id handle side n t d ∧ d.substitute n.bindings = type ∧
      freeParams t n = free := by
  obtain ⟨name, n, t, hname, hne, hn, ht, hof⟩ := inspect_eq_some_iff.mp h
  rcases ofNode_eq_some_iff.mp hof with ⟨-, hh⟩ | ⟨-, p, -, -, hh⟩ |
    ⟨htrigger, p, d, hp, hroute, hd, hh⟩
  · cases hh
  · cases hh
  · injection hh with htype hfree
    refine ⟨n, t, d, ⟨hn, ht, NodeType.mem_portTypes hp hd, TypeTree.writable_of_parse hd, ?_⟩,
      htype, hfree⟩
    intro nodes' n' hn' hsame
    rw [← hsame] at ht
    exact inspect_eq_some_iff.mpr ⟨name, n', t, hname, hne, hn', ht,
      ofNode_eq_some_iff.mpr (.inr (.inr ⟨htrigger, p, d, hp, hroute, hd, rfl⟩))⟩

theorem mem_freeParams {t : NodeType} {n : Node} {p : String} :
    p ∈ freeParams t n ↔ p ∈ t.params ∧ n.bindings.get? p = none := by
  simp [freeParams, Table.contains_eq_false_iff]

variable {n n' : Node} {t : NodeType} {d : TypeTree}

theorem PortOf.free_declared (h : PortOf catalog nodes id handle side n t d) :
    ∀ p ∈ freeParams t n, p ∈ catalog.declared :=
  fun _ hp => Catalog.mem_declared h.nodeType (mem_freeParams.mp hp).1

/-- A handle of a node with all parameters bound has a ground type. -/
theorem PortOf.ground (h : PortOf catalog nodes id handle side n t d) (hscoped : catalog.WellScoped)
    (hn : n.Ground catalog) (hfree : freeParams t n = []) :
    (d.substitute n.bindings).Ground catalog.declared := by
  intro l hl hdeclared
  rcases TypeTree.labels_substitute n.bindings d l hl with ⟨hld, hnone⟩ | ⟨p, x, hx, hlx⟩
  · have hparam := hscoped t (Catalog.mem_values h.nodeType) d h.declared l hld hdeclared
    have hmem : l ∈ freeParams t n := mem_freeParams.mpr ⟨hparam, hnone⟩
    rw [hfree] at hmem
    cases hmem
  · exact hn p x hx l hlx hdeclared

/-- No free parameter has arguments in the type of a handle. -/
theorem PortOf.bare (h : PortOf catalog nodes id handle side n t d) (hfirst : catalog.FirstOrder)
    (hn : n.Ground catalog) :
    ∀ l ∈ (d.substitute n.bindings).appliedLabels, l ∉ freeParams t n := by
  intro l hl hfree
  have hdeclared := h.free_declared l hfree
  rcases TypeTree.appliedLabels_substitute n.bindings d l hl with hld | ⟨p, x, hx, hlx⟩
  · exact hfirst t (Catalog.mem_values h.nodeType) d h.declared l hld hdeclared
  · exact hn p x hx l hlx hdeclared

/-- The declared type `d` of a port takes the type `c` in: resolved against `c`, it becomes `c`, and
no parameter that stays free is mentioned in it. -/
structure Absorbs (t : NodeType) (n : Node) (d c : TypeTree) : Prop where
  bare : ∀ l ∈ (d.substitute n.bindings).appliedLabels, l ∉ freeParams t n
  closed : ∀ p ∈ d.labels, ∀ x, n.bindings.get? p = some x → ∀ l ∈ x.labels, l ∉ freeParams t n
  apart : ∀ l ∈ c.labels, l ∈ freeParams t n → l ∈ (d.substitute n.bindings).labels

theorem PortOf.absorbs (h : PortOf catalog nodes id handle side n t d)
    (hfirst : catalog.FirstOrder) (hn : n.Ground catalog) {c : TypeTree}
    (hc : c.Ground catalog.declared) : Absorbs t n d c where
  bare := h.bare hfirst hn
  closed := fun p _ x hx l hl hfree => hn p x hx l hl (h.free_declared l hfree)
  apart := fun l hl hfree => absurd (h.free_declared l hfree) (hc l hl)

section

variable {c : TypeTree} {b : Bindings} (hc : Absorbs t n d c)
  (hb : TypeTree.resolve (freeParams t n) (d.substitute n.bindings) c = .ok b)

include hc hb

/-- The end that is resolved has then the type of the other end. -/
theorem PortOf.inspect_resolved (h : PortOf catalog nodes id handle side n t d) :
    inspect (nodes.insert id { n with bindings := b.union n.bindings }) catalog id handle side =
      .ok (some (.data c (freeParams t { n with bindings := b.union n.bindings }))) := by
  have hinspect := h.inspect_eq _ _ (Table.get?_insert_self nodes id
    { n with bindings := b.union n.bindings }) rfl
  rwa [TypeTree.substitute_union_resolve hb hc.bare hc.closed] at hinspect

theorem Absorbs.not_mem_freeParams :
    ∀ l ∈ c.labels, l ∉ freeParams t { n with bindings := b.union n.bindings } := by
  intro l hl hfree
  obtain ⟨hparam, hnone⟩ := mem_freeParams.mp hfree
  rw [Table.get?_union, Option.or_eq_none_iff] at hnone
  have hwas : l ∈ freeParams t n := mem_freeParams.mpr ⟨hparam, hnone.1⟩
  have hbound : l ∈ b.keys := (TypeTree.mem_keys_resolve hb).mpr ⟨hwas, hc.apart l hl hwas⟩
  obtain ⟨x, hx⟩ := Table.mem_keys_iff.mp hbound
  rw [hnone.2] at hx
  cases hx

end

/-- A handle that stays what it is, except that free parameters may have been bound. -/
inductive Settles : Handle → Handle → Prop
  | control : Settles .control .control
  | data {type : TypeTree} {free free' : List String} (h : free = [] → free' = []) :
      Settles (.data type free) (.data type free')

/-- The ends of a wire that stands.  Where a parameter was free, the two types are one. -/
inductive Meets (catalog : Catalog) : Handle → Handle → Prop
  | control : Meets catalog .control .control
  | same {type : TypeTree} {sf tf : List String} (ground : type.Ground catalog.declared)
      (settled : sf = [] ∨ tf = []) : Meets catalog (.data type sf) (.data type tf)
  | agree {s t : TypeTree} (source : s.Ground catalog.declared)
      (target : t.Ground catalog.declared) (agrees : s.agrees t = true) :
      Meets catalog (.data s []) (.data t [])

def Ground (catalog : Catalog) : Handle → Prop
  | .control => True
  | .data type _ => type.Ground catalog.declared

theorem Meets.settles {s t s' t' : Handle} (h : Meets catalog s t) (hs : s.Settles s')
    (ht : t.Settles t') : Meets catalog s' t' := by
  cases h with
  | control => cases hs; cases ht; exact .control
  | same ground settled =>
    cases hs with
    | data hs =>
      cases ht with
      | data ht => exact .same ground (settled.imp hs ht)
  | agree source target agrees =>
    cases hs with
    | data hs =>
      cases ht with
      | data ht =>
        rw [hs rfl, ht rfl]
        exact .agree source target agrees

theorem Meets.ground {s t : Handle} (h : Meets catalog s t) :
    s.Ground catalog ∧ t.Ground catalog := by
  cases h with
  | control => exact ⟨trivial, trivial⟩
  | same ground settled => exact ⟨ground, ground⟩
  | agree source target agrees => exact ⟨source, target⟩

theorem freeParams_eq_nil (hext : n.Extended catalog n') (h : freeParams t n = []) :
    freeParams t n' = [] := by
  refine List.eq_nil_iff_forall_not_mem.mpr fun p hp => ?_
  obtain ⟨hparam, hnone⟩ := mem_freeParams.mp hp
  have hbound : n.bindings.get? p ≠ none := by
    intro hnone'
    have hmem : p ∈ freeParams t n := mem_freeParams.mpr ⟨hparam, hnone'⟩
    rw [h] at hmem
    cases hmem
  obtain ⟨x, hx⟩ := Option.ne_none_iff_exists'.mp hbound
  rw [hext.keeps p x hx] at hnone
  cases hnone

/-- A handle of a ground type stays what it is when nodes get more bindings. -/
theorem exists_settles (hkeep : nodes.Keep (Node.Extended catalog) nodes' id) {h : Handle}
    (hh : inspect nodes catalog id handle side = .ok (some h)) (hground : h.Ground catalog) :
    ∃ h', inspect nodes' catalog id handle side = .ok (some h') ∧ h.Settles h' := by
  cases h with
  | control =>
    obtain ⟨h', hh', hkind⟩ := exists_inspect_of_keep (hkeep.mono Node.Extended.sameType) hh
    cases h' with
    | control => exact ⟨.control, hh', .control⟩
    | data type free => cases hkind
  | data type free =>
    obtain ⟨n, t, d, hport, rfl, rfl⟩ := exists_port hh
    obtain ⟨n', hn', hext⟩ := hkeep n hport.node
    refine ⟨_, hport.inspect_eq nodes' n' hn' hext.sameType, ?_⟩
    rw [hext.substitute_eq hground]
    exact .data (freeParams_eq_nil hext)

end Handle

/-! ### Wires -/

namespace Wire

variable {catalog : Catalog} {nodes nodes' : Nodes} {w : Wire}

/-- Both ends of a wire are there, and they have met. -/
def Stands (catalog : Catalog) (nodes : Nodes) (w : Wire) : Prop :=
  ∃ s t, Handle.inspect nodes catalog w.source w.sourceHandle .output = .ok (some s) ∧
    Handle.inspect nodes catalog w.target w.targetHandle .input = .ok (some t) ∧
    Handle.Meets catalog s t

theorem Stands.keep (h : w.Stands catalog nodes)
    (hs : nodes.Keep (Node.Extended catalog) nodes' w.source)
    (ht : nodes.Keep (Node.Extended catalog) nodes' w.target) : w.Stands catalog nodes' := by
  obtain ⟨s, t, hsource, htarget, hmeets⟩ := h
  obtain ⟨s', hsource', hs'⟩ := Handle.exists_settles hs hsource hmeets.ground.1
  obtain ⟨t', htarget', ht'⟩ := Handle.exists_settles ht htarget hmeets.ground.2
  exact ⟨s', t', hsource', htarget', hmeets.settles hs' ht'⟩

/-- A route stands whatever becomes of the bindings. -/
theorem Stands.keep_route (h : w.Stands catalog nodes)
    (hroute : w.targetHandle = some triggerHandle)
    (hs : nodes.Keep Node.SameType nodes' w.source)
    (ht : nodes.Keep Node.SameType nodes' w.target) : w.Stands catalog nodes' := by
  obtain ⟨s, t, hsource, htarget, hmeets⟩ := h
  obtain ⟨s', hsource', hs'⟩ := Handle.exists_inspect_of_keep hs hsource
  obtain ⟨t', htarget', ht'⟩ := Handle.exists_inspect_of_keep ht htarget
  have hcontrol : t = .control := by
    obtain ⟨name, n, nt, hname, -, -, -, hof⟩ := Handle.inspect_eq_some_iff.mp htarget
    rw [hroute, Option.some.injEq] at hname
    rcases Handle.ofNode_eq_some_iff.mp hof with ⟨-, ht⟩ | ⟨hne, -⟩ | ⟨hne, -⟩
    · exact ht.symm
    · exact absurd hname.symm hne
    · exact absurd hname.symm hne
  subst hcontrol
  cases hmeets with
  | control =>
    cases s' with
    | data type free => cases hs'
    | control =>
      cases t' with
      | data type free => cases ht'
      | control => exact ⟨_, _, hsource', htarget', .control⟩

end Wire

/-! ### Decisions -/

namespace Decision

variable {theme : Theme} {catalog : Catalog} {nodes nodes' : Nodes} {edges : List Edge}
  {wire : Wire} {edge : Edge} {rebinding : Option Rebinding} {evicted : List String}

/-- What a decision does to the nodes: bound types stay ground, and each node keeps what it had. -/
structure Extends (catalog : Catalog) (nodes nodes' : Nodes) : Prop where
  ground : nodes'.Ground catalog
  binds : nodes.Binds nodes'
  keep : ∀ id, nodes.Keep (Node.Extended catalog) nodes' id

theorem Extends.refl (hnodes : nodes.Ground catalog) : Extends catalog nodes nodes :=
  ⟨hnodes, .refl nodes, fun _ n hn => ⟨n, hn, .refl n⟩⟩

theorem Extends.trans {nodes₁ nodes₂ : Nodes} (h : Extends catalog nodes nodes₁)
    (h' : Extends catalog nodes₁ nodes₂) : Extends catalog nodes nodes₂ := by
  refine ⟨h'.ground, h.binds.trans h'.binds, fun id n hn => ?_⟩
  obtain ⟨m, hm, hext⟩ := h.keep id n hn
  obtain ⟨k, hk, hext'⟩ := h'.keep id m hm
  exact ⟨k, hk, hext.trans hext'⟩

/-- What a type hands down to its parts is kept by new bindings, if they were found in such a
type. -/
theorem bound_rebindingOf {Q : TypeTree → Prop} (hQ : TypeTree.Hereditary Q)
    (hnodes : nodes.Bound Q) {id : String} {n : Node} (hn : nodes.get? id = some n)
    {type c : TypeTree} {free : List String} {b : Bindings}
    (hb : TypeTree.resolve free type c = .ok b) (hc : Q c) :
    Nodes.Bound Q (nodes.insert id { n with bindings := b.union n.bindings }) := by
  refine hnodes.insert fun p x hx => ?_
  rw [Table.get?_union, Option.or_eq_some_iff] at hx
  rcases hx with hx | ⟨-, hx⟩
  · exact hnodes id n hn p x hx
  · exact TypeTree.forall_resolve hQ hb hc p x hx

theorem extended_rebindingOf {id : String} {handle : Option String} {side : Side} {n : Node}
    {t : NodeType} {d type c : TypeTree} (hport : Handle.PortOf catalog nodes id handle side n t d)
    {b : Bindings} (hb : TypeTree.resolve (Handle.freeParams t n) type c = .ok b) :
    n.Extended catalog { n with bindings := b.union n.bindings } := by
  refine ⟨rfl, fun p x hx => ?_, fun p x hx => ?_⟩
  · rw [Table.get?_union, hx, Option.some_or]
  · rw [Table.get?_union, Option.or_eq_some_iff] at hx
    rcases hx with hx | ⟨-, hx⟩
    · exact .inl hx
    · have hp : p ∈ b.keys := Table.mem_keys_iff.mpr ⟨x, hx⟩
      exact .inr (hport.free_declared p ((TypeTree.mem_keys_resolve hb).mp hp).1)

theorem stands_of_accepted (hfirst : catalog.FirstOrder) (hscoped : catalog.WellScoped)
    (hnodes : nodes.Ground catalog)
    (hd : make theme catalog nodes edges wire = .ok (.accepted edge rebinding evicted))
    (hafter : (accepted edge rebinding evicted).nodesAfter nodes = nodes') :
    Extends catalog nodes nodes' ∧ wire.Stands catalog nodes' := by
  have hground : ∀ {side type}, wire.inspect catalog nodes side = .ok (some (.data type [])) →
      type.Ground catalog.declared := by
    intro side type h
    obtain ⟨n, t, d, hport, rfl, hfree⟩ := Handle.exists_port h
    exact hport.ground hscoped (hnodes _ n hport.node) hfree
  cases fits_of_accepted hd with
  | control ends =>
    cases hafter
    exact ⟨.refl hnodes, _, _, ends .output, ends .input, .control⟩
  | settled type ends agrees =>
    cases hafter
    exact ⟨.refl hnodes, _, _, ends .output, ends .input,
      .agree (hground (ends _)) (hground (ends _)) agrees⟩
  | @resolved side _ other _ b here _ there found =>
    obtain ⟨n, t, d, hport, rfl, rfl⟩ := Handle.exists_port here
    have hext := extended_rebindingOf hport found
    rw [nodesAfter_rebindingOf hport.node] at hafter
    have hkeep := Nodes.keep_insert Node.Extended.refl hport.node hext
    have hbinds := Nodes.binds_insert hport.node hext.keeps
    have hbound := bound_rebindingOf (TypeTree.Ground.hereditary _) hnodes hport.node found
      (hground there)
    rw [hafter] at hkeep hbinds hbound
    -- The end that was resolved has now the type of the other end, which is ground and stays.
    have habsorbs := hport.absorbs hfirst (hnodes _ n hport.node) (hground there)
    have hhere : wire.inspect catalog nodes' side = .ok (some (.data other
        (Handle.freeParams t { n with bindings := b.union n.bindings }))) :=
      hafter ▸ hport.inspect_resolved habsorbs found
    obtain ⟨_, hthere, hsettles⟩ := Handle.exists_settles (hkeep _) there (hground there)
    cases hsettles with
    | data hfree =>
      refine ⟨⟨hbound, hbinds, hkeep⟩, ?_⟩
      cases side with
      | output => exact ⟨_, _, hhere, hthere, .same (hground there) (.inr (hfree rfl))⟩
      | input => exact ⟨_, _, hthere, hhere, .same (hground there) (.inl (hfree rfl))⟩

/-- Only types that can be written down are ever bound. -/
theorem writable_of_accepted (hnodes : nodes.Bound TypeTree.Writable)
    (hd : make theme catalog nodes edges wire = .ok (.accepted edge rebinding evicted)) :
    Nodes.Bound TypeTree.Writable ((accepted edge rebinding evicted).nodesAfter nodes) := by
  cases fits_of_accepted hd with
  | control ends => exact hnodes
  | settled type ends agrees => exact hnodes
  | resolved side here isFree there found =>
    obtain ⟨n, t, d, hport, -, rfl⟩ := Handle.exists_port here
    obtain ⟨m, u, e, hother, rfl, -⟩ := Handle.exists_port there
    rw [nodesAfter_rebindingOf hport.node]
    exact bound_rebindingOf TypeTree.Writable.hereditary hnodes hport.node found
      (hother.writable.substitute (hnodes _ m hother.node))

/-- Two ends of one type fit if the parameters that are free at one of them are not mentioned in
it, and nothing is bound then. -/
theorem exists_fits_of_same (side : Side) {type : TypeTree} {free : List String}
    (here : wire.inspect catalog nodes side = .ok (some (.data type free)))
    (there : wire.inspect catalog nodes side.opposite = .ok (some (.data type [])))
    (hfree : ∀ l ∈ type.labels, l ∉ free) :
    ∃ rebinding, wire.Fits catalog nodes rebinding ∧
      ∀ edge evicted, (accepted edge rebinding evicted).nodesAfter nodes = nodes := by
  by_cases hnone : free = []
  · subst hnone
    refine ⟨none, .settled (fun _ => type) (fun side' => ?_) (TypeTree.agrees_refl type),
      fun _ _ => rfl⟩
    cases side <;> cases side' <;> assumption
  · obtain ⟨n, t, d, hport, -, -⟩ := Handle.exists_port here
    have hself := TypeTree.resolve_self hfree
    refine ⟨_, .resolved side here hnone there hself, fun edge evicted => ?_⟩
    rw [nodesAfter_rebindingOf hport.node, Table.empty_union]
    exact Table.insert_eq_self hport.node

/-- A wire that stands is accepted again, and nothing changes by it. -/
theorem accepted_of_stands (h : wire.Stands catalog nodes) (colors : Table Rgb) (unresolved : Rgb)
    (edges : List Edge) :
    ∃ edge rebinding evicted,
      make ⟨.ofColors colors, unresolved⟩ catalog nodes edges wire =
        .ok (.accepted edge rebinding evicted) ∧
      (accepted edge rebinding evicted).nodesAfter nodes = nodes := by
  obtain ⟨s, t, hs, ht, hmeets⟩ := h
  suffices hfits : ∃ rebinding, wire.Fits catalog nodes rebinding ∧
      ∀ edge evicted, (accepted edge rebinding evicted).nodesAfter nodes = nodes by
    obtain ⟨rebinding, hfits, hafter⟩ := hfits
    obtain ⟨edge, evicted, hmake⟩ := exists_accepted_of_fits hfits colors unresolved edges
    exact ⟨edge, rebinding, evicted, hmake, hafter edge evicted⟩
  have hfree : ∀ side {type free}, wire.inspect catalog nodes side = .ok (some (.data type free)) →
      type.Ground catalog.declared → ∀ l ∈ type.labels, l ∉ free := by
    intro side type free hh ground l hl hlfree
    obtain ⟨n, t, d, hport, -, rfl⟩ := Handle.exists_port hh
    exact ground l hl (hport.free_declared l hlfree)
  cases hmeets with
  | control => exact ⟨none, .control fun side => by cases side <;> assumption, fun _ _ => rfl⟩
  | @agree s t _ _ agrees =>
    refine ⟨none, .settled (fun side => side.casesOn s t) (fun side => ?_) agrees,
      fun _ _ => rfl⟩
    cases side <;> assumption
  | same ground settled =>
    rcases settled with rfl | rfl
    · exact exists_fits_of_same .input ht hs (hfree .input ht ground)
    · exact exists_fits_of_same .output hs ht (hfree .output hs ground)

end Decision

/-! ### Audits -/

namespace Audit

variable {catalog : Catalog} {nodes : Nodes}

theorem issues_replay_cons {all rest : List Edge} {e : Edge} {d : Decision}
    (hd : Decision.make .standard catalog nodes (all.filter fun o => o.id != e.id) e.wire = .ok d) :
    (replay catalog all nodes (e :: rest)).issues =
      (replay catalog all (d.nodesAfter nodes) rest).issues.map (issuesOf [(e, d)] ++ ·) := by
  rw [issues, issues, result_replay_cons, hd, ok_bind]
  cases (replay catalog all (d.nodesAfter nodes) rest).result with
  | error f => rfl
  | ok ds => cases d <;> rfl

/-- Every edge of a replay is accepted, and the nodes never change. -/
theorem replay_of_stands (all : List Edge) {edges : List Edge}
    (h : ∀ e ∈ edges, e.wire.Stands catalog nodes) :
    (replay catalog all nodes edges).issues = .ok [] := by
  induction edges with
  | nil => rfl
  | cons e rest ih =>
    obtain ⟨edge, rebinding, evicted, hmake, hafter⟩ :=
      Decision.accepted_of_stands (h e List.mem_cons_self) Palette.standardColors .unresolved
        (all.filter fun o => o.id != e.id)
    have hmake' : Decision.make .standard catalog nodes (all.filter fun o => o.id != e.id) e.wire =
        .ok (.accepted edge rebinding evicted) := hmake
    rw [issues_replay_cons hmake', hafter, ih fun x hx => h x (List.mem_cons_of_mem e hx)]
    rfl

theorem issues_of_stands {edges : List Edge} (h : ∀ e ∈ edges, e.wire.Stands catalog nodes) :
    (ofGraph catalog nodes edges).issues = .ok [] := replay_of_stands edges h

end Audit
end Patchbay
