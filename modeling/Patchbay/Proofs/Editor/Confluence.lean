import Patchbay.Proofs.Editor.Audit
import Patchbay.Proofs.Editor.Install
import Patchbay.Proofs.TypeTree.Wildcard

/-!
The order of wires at a node with free parameters.  A wire that joins it to a settled handle asks
for bindings under which both ends have one type (`Wire.Matched`).  Whether the wire is resolved or,
where nothing is free any more, compared, the outcome is the same: it is accepted exactly if there
are such bindings that keep what is bound (`exists_fits`), and then the node gets the least of them
(`least_of_fits`).

So some wires are accepted one after another exactly if there are bindings that match all of them,
and the node has the least such bindings in the end (`least_of_connectAll`, `exists_connectAll`).
The order of the wires does not occur in that.
-/

namespace Patchbay

/-! ### Least extensions -/

namespace Node

variable {catalog : Catalog} {n n₁ n₂ : Node} {P Q : Node → Prop}

/-- Of the nodes that extend `n` and have `P`, this one has the fewest bindings. -/
def Least (catalog : Catalog) (n : Node) (P : Node → Prop) (n₁ : Node) : Prop :=
  ∀ n', n₁.Extended catalog n' ↔ n.Extended catalog n' ∧ P n'

theorem Least.self (h : n.Least catalog P n₁) : n.Extended catalog n₁ ∧ P n₁ := (h n₁).mp (.refl n₁)

theorem Least.congr (h : n.Least catalog P n₁)
    (hPQ : ∀ n', n.Extended catalog n' → (P n' ↔ Q n')) : n.Least catalog Q n₁ := by
  intro n'
  rw [h n']
  exact and_congr_right (hPQ n')

theorem Least.trans (h : n.Least catalog P n₁) (h' : n₁.Least catalog Q n₂) :
    n.Least catalog (fun n' => P n' ∧ Q n') n₂ := by
  intro n'
  rw [h' n', h n', and_assoc]

theorem Least.unique (h₁ : n.Least catalog P n₁) (h₂ : n.Least catalog P n₂) (p : String) :
    n₁.bindings.get? p = n₂.bindings.get? p := by
  have hle : n₁.Extended catalog n₂ := (h₁ n₂).mpr h₂.self
  have hge : n₂.Extended catalog n₁ := (h₂ n₁).mpr h₁.self
  exact Option.ext fun x => ⟨hle.keeps p x, hge.keeps p x⟩

end Node

/-! ### What a resolution binds -/

namespace Handle.PortOf

variable {catalog : Catalog} {nodes : Nodes} {id : String} {handle : Option String} {side : Side}
  {n n' : Node} {t : NodeType} {d c : TypeTree} {b : Bindings}

variable (h : PortOf catalog nodes id handle side n t d) (hfirst : catalog.FirstOrder)
  (hscoped : catalog.WellScoped) (hn : n.Ground catalog)

include h hfirst hscoped hn

/-- Bindings that extend those of a node are a choice for its free parameters. -/
theorem instantiate_of_extended (hext : n.Extended catalog n') :
    TypeTree.instantiate (freeParams t n) (TypeTree.choiceOf n'.bindings)
      (d.substitute n.bindings) = some (d.substitute n'.bindings) := by
  refine TypeTree.instantiate_of_extends hext.keeps ?_ d (h.bare hfirst hn) ?_
  · exact fun p x hx l hl hfree => hn p x hx l hl (h.free_declared l hfree)
  · intro l hl hfree hnone
    rw [Option.eq_none_iff_forall_ne_some]
    intro x hx
    rcases hext.adds l x hx with hold | hdeclared
    · rw [hnone] at hold
      cases hold
    · rcases TypeTree.labels_substitute n.bindings d l hl with ⟨hld, -⟩ | ⟨p, y, hy, hly⟩
      · have hparam := hscoped t (Catalog.mem_values h.nodeType) d h.declared l hld hdeclared
        exact hfree (mem_freeParams.mpr ⟨hparam, hnone⟩)
      · exact hn p y hy l hly hdeclared

/-- What is found by a resolution is the least that makes the type of the port the other type. -/
theorem least_of_resolve (hc : c.Ground catalog.declared)
    (hb : TypeTree.resolve (freeParams t n) (d.substitute n.bindings) c = .ok b) :
    n.Least catalog (fun n' => d.substitute n'.bindings = c)
      { n with bindings := b.union n.bindings } := by
  have hnew := Decision.extended_rebindingOf h hb
  have habsorbs := h.absorbs hfirst hn hc
  have hresolved : d.substitute (b.union n.bindings) = c :=
    TypeTree.substitute_union_resolve hb habsorbs.bare habsorbs.closed
  intro n'
  constructor
  · intro hext
    exact ⟨hnew.trans hext, (hext.substitute_eq (hresolved.symm ▸ hc)).trans hresolved⟩
  · rintro ⟨hext, hsolves⟩
    have hfits : TypeTree.Fits (TypeTree.choiceOf n'.bindings) b := by
      rw [TypeTree.fits_resolve hb, h.instantiate_of_extended hfirst hscoped hn hext, hsolves]
    refine ⟨hext.sameType, fun p x hx => ?_, fun p x hx => ?_⟩
    · rw [Table.get?_union, Option.or_eq_some_iff] at hx
      rcases hx with hold | ⟨-, hx⟩
      · exact hext.keeps p x hold
      · have hp : p ∈ b.keys := Table.mem_keys_iff.mpr ⟨x, hx⟩
        have hdeclared := h.free_declared p ((TypeTree.mem_keys_resolve hb).mp hp).1
        have hground := TypeTree.forall_resolve (TypeTree.Ground.hereditary _) hb hc p x hx
        exact TypeTree.get?_of_fits_choiceOf hfits hx fun hpx => hground p hpx hdeclared
    · rcases hext.adds p x hx with hold | hdeclared
      · exact .inl (hnew.keeps p x hold)
      · exact .inr hdeclared

end Handle.PortOf

/-! ### Wires -/

theorem Side.eq_or_opposite (side s : Side) : s = side ∨ s = side.opposite := by
  cases side <;> cases s <;> simp [opposite]

namespace Wire

variable {catalog : Catalog} {nodes : Nodes} {id : String} {side : Side} {w : Wire} {n n' : Node}
  {t : NodeType} {d c : TypeTree} {rebinding : Option Rebinding}

/-- Both ends of a wire have one type. -/
def Matched (catalog : Catalog) (nodes : Nodes) (w : Wire) : Prop :=
  ∃ type, ∀ side, ∃ free, w.inspect catalog nodes side = .ok (some (.data type free))

/-- A data wire between the node `id` and a settled handle of another node.  Its types have no
wildcard, and what is bound at its ends mentions no declared name. -/
structure Determines (catalog : Catalog) (nodes : Nodes) (id : String) (side : Side) (w : Wire) :
    Prop where
  here : w.node side = id
  elsewhere : w.node side.opposite ≠ id
  near : ∃ type free, w.inspect catalog nodes side = .ok (some (.data type free)) ∧
    TypeTree.wildcard ∉ type.labels
  far : ∃ type, w.inspect catalog nodes side.opposite = .ok (some (.data type [])) ∧
    TypeTree.wildcard ∉ type.labels
  ground : ∀ s m, nodes.get? (w.node s) = some m → m.Ground catalog

/-- What such a wire asks of a node: that the declared type `d` of a port become `c`. -/
structure Asks (catalog : Catalog) (nodes : Nodes) (side : Side) (w : Wire) (n : Node)
    (t : NodeType) (d c : TypeTree) : Prop where
  port : Handle.PortOf catalog nodes (w.node side) (w.handle side) side n t d
  far : w.inspect catalog nodes side.opposite = .ok (some (.data c []))
  apart : w.node side.opposite ≠ w.node side
  bound : n.Ground catalog
  ground : c.Ground catalog.declared
  nearPlain : TypeTree.wildcard ∉ (d.substitute n.bindings).labels
  farPlain : TypeTree.wildcard ∉ c.labels

theorem Determines.exists_asks (h : w.Determines catalog nodes id side)
    (hscoped : catalog.WellScoped) (hn : nodes.get? id = some n) :
    ∃ t d c, w.Asks catalog nodes side n t d c := by
  obtain ⟨rfl, hapart, ⟨type, free, hnear, hplain⟩, ⟨c, hfar, hfarPlain⟩, hground⟩ := h
  obtain ⟨n', t, d, hport, rfl, rfl⟩ := Handle.exists_port hnear
  obtain rfl : n' = n := Option.some.inj (hport.node.symm.trans hn)
  obtain ⟨m, u, e, hother, rfl, hfree⟩ := Handle.exists_port hfar
  exact ⟨t, d, _, hport, hfar, hapart, hground side n' hn,
    hother.ground hscoped (hground _ m hother.node) hfree, hplain, hfarPlain⟩

namespace Asks

variable (h : w.Asks catalog nodes side n t d c)

include h

theorem near : w.inspect catalog nodes side =
    .ok (some (.data (d.substitute n.bindings) (Handle.freeParams t n))) :=
  h.port.inspect_eq nodes n h.port.node rfl

theorem matched_iff (hsame : n.SameType n') :
    w.Matched catalog (nodes.insert (w.node side) n') ↔ d.substitute n'.bindings = c := by
  have hnear : w.inspect catalog (nodes.insert (w.node side) n') side =
      .ok (some (.data (d.substitute n'.bindings) (Handle.freeParams t n'))) :=
    h.port.inspect_eq _ n' (Table.get?_insert_self ..) hsame
  have hfar : w.inspect catalog (nodes.insert (w.node side) n') side.opposite =
      .ok (some (.data c [])) := (inspect_insert_of_ne h.apart n').trans h.far
  constructor
  · rintro ⟨type, hends⟩
    obtain ⟨_, htype⟩ := hends side
    obtain ⟨_, htype'⟩ := hends side.opposite
    rw [hnear] at htype
    rw [hfar] at htype'
    cases htype
    cases htype'
    rfl
  · rintro rfl
    refine ⟨d.substitute n'.bindings, fun s => ?_⟩
    rcases Side.eq_or_opposite side s with rfl | rfl
    · exact ⟨_, hnear⟩
    · exact ⟨_, hfar⟩

/-- Types without a wildcard agree only if they are equal. -/
theorem type_eq_of_agrees {types : Side → TypeTree}
    (ends : ∀ s, w.inspect catalog nodes s = .ok (some (.data (types s) [])))
    (agrees : (types .output).agrees (types .input) = true) : d.substitute n.bindings = c := by
  have hnear : types side = d.substitute n.bindings ∧ [] = Handle.freeParams t n := by
    simpa [ends side] using h.near
  have hfar : types side.opposite = c := by simpa [ends side.opposite] using h.far
  have hplain : ∀ s, TypeTree.wildcard ∉ (types s).labels := by
    intro s
    rcases Side.eq_or_opposite side s with rfl | rfl
    · rw [hnear.1]
      exact h.nearPlain
    · rw [hfar]
      exact h.farPlain
  have hequal := (TypeTree.agrees_iff_eq (hplain .output) (hplain .input)).mp agrees
  rw [← hnear.1, ← hfar]
  cases side with
  | output => exact hequal
  | input => exact hequal.symm

/-- Where the two types are one, nothing has to be bound. -/
theorem least_self (hsame : d.substitute n.bindings = c) :
    n.Least catalog (fun n' => d.substitute n'.bindings = c) n := by
  refine fun n' => ⟨fun hext => ⟨hext, ?_⟩, fun hn' => hn'.1⟩
  exact (hext.substitute_eq (hsame.symm ▸ h.ground)).trans hsame

variable (hfirst : catalog.FirstOrder) (hscoped : catalog.WellScoped)

include hfirst hscoped

/-- An accepted wire makes the least bindings that match its ends. -/
theorem least_of_fits (hfits : w.Fits catalog nodes rebinding) (edge : Edge)
    (evicted : List String) : ∃ b,
      (Decision.accepted edge rebinding evicted).nodesAfter nodes =
        nodes.insert (w.node side) { n with bindings := b } ∧
      n.Least catalog (fun n' => w.Matched catalog (nodes.insert (w.node side) n'))
        { n with bindings := b } ∧
      ∀ p x, n.bindings.get? p = none → b.get? p = some x →
        x.Ground (TypeTree.wildcard :: catalog.declared) := by
  have hmatched : ∀ n', n.Extended catalog n' → (d.substitute n'.bindings = c ↔
      w.Matched catalog (nodes.insert (w.node side) n')) :=
    fun n' hext => (h.matched_iff hext.sameType).symm
  have hnear := h.near
  have hfar := h.far
  cases hfits with
  | control ends =>
    rw [ends side] at hnear
    cases hnear
  | settled types ends agrees =>
    have hleast := h.least_self (h.type_eq_of_agrees ends agrees)
    refine ⟨n.bindings, (Table.insert_eq_self h.port.node).symm, hleast.congr hmatched, ?_⟩
    intro p x hnone hx
    rw [hnone] at hx
    cases hx
  | @resolved side' _ _ _ b here isFree there found =>
    -- The end with free parameters cannot be the settled one.
    rcases Side.eq_or_opposite side side' with rfl | rfl
    · rw [here] at hnear
      rw [there] at hfar
      cases hnear
      cases hfar
      have hleast := h.port.least_of_resolve hfirst hscoped h.bound h.ground found
      refine ⟨_, Decision.nodesAfter_rebindingOf h.port.node, hleast.congr hmatched, ?_⟩
      intro p x hnone hx
      rw [Table.get?_union, hnone, Option.none_or] at hx
      exact TypeTree.forall_resolve (TypeTree.Ground.hereditary _) found
        (TypeTree.ground_cons_iff.mpr ⟨h.farPlain, h.ground⟩) p x hx
    · rw [here] at hfar
      cases hfar
      exact absurd rfl isFree

/-- A wire is accepted if there are bindings that match its ends. -/
theorem exists_fits (hext : n.Extended catalog n')
    (hmatched : w.Matched catalog (nodes.insert (w.node side) n')) :
    ∃ rebinding, w.Fits catalog nodes rebinding := by
  have hsolves := (h.matched_iff hext.sameType).mp hmatched
  by_cases hfree : Handle.freeParams t n = []
  · have hnear := h.near
    have hground := h.port.ground hscoped h.bound hfree
    rw [← hext.substitute_eq hground, hsolves, hfree] at hnear
    obtain ⟨rebinding, hfits, -⟩ := Decision.exists_fits_of_same side hnear h.far (by simp)
    exact ⟨rebinding, hfits⟩
  · have hchoice := h.port.instantiate_of_extended hfirst hscoped h.bound hext
    rw [hsolves] at hchoice
    obtain ⟨b, hb⟩ := TypeTree.exists_extend hchoice (TypeTree.fits_empty _)
    exact ⟨_, .resolved side h.near hfree h.far hb⟩

end Asks

/-- New bindings leave what is asked of a wire, if they are of the same kind. -/
theorem Determines.insert (h : w.Determines catalog nodes id side) (hn : nodes.get? id = some n)
    {b : Bindings} (hext : n.Extended catalog { n with bindings := b })
    (hnew : ∀ p x, n.bindings.get? p = none → b.get? p = some x →
      x.Ground (TypeTree.wildcard :: catalog.declared)) :
    w.Determines catalog (nodes.insert id { n with bindings := b }) id side := by
  obtain ⟨rfl, hapart, ⟨type, free, hnear, hplain⟩, ⟨c, hfar, hfarPlain⟩, hground⟩ := h
  refine ⟨rfl, hapart, ?_, ⟨c, ?_, hfarPlain⟩, ?_⟩
  · obtain ⟨n', t, d, hport, rfl, rfl⟩ := Handle.exists_port hnear
    obtain rfl : n' = n := Option.some.inj (hport.node.symm.trans hn)
    refine ⟨_, _, hport.inspect_eq _ { n' with bindings := b } (Table.get?_insert_self ..) rfl, ?_⟩
    intro hstar
    rcases TypeTree.labels_substitute_of_extends hext.keeps d _ hstar with hold |
      ⟨p, x, hnone, hx, hlx⟩
    · exact hplain hold
    · exact (TypeTree.ground_cons_iff.mp (hnew p x hnone hx)).1 hlx
  · rw [inspect_insert_of_ne hapart, hfar]
  · intro s m hm
    by_cases hs : w.node s = w.node side
    · rw [hs, Table.get?_insert_self, Option.some.injEq] at hm
      subst hm
      intro p x hx
      cases hold : n.bindings.get? p with
      | none => exact (TypeTree.ground_cons_iff.mp (hnew p x hold hx)).2
      | some y =>
        have hy := hext.keeps p y hold
        obtain rfl : y = x := Option.some.inj (hy.symm.trans hx)
        exact hground side n hn p y hold
    · rw [Table.get?_insert_of_ne nodes hs] at hm
      exact hground s m hm

end Wire

/-! ### Wires in turn -/

namespace Editor

/-- The editor after some wires, if all of them are accepted. -/
def connectAll : Editor → List Wire → Option Editor
  | ed, [] => some ed
  | ed, w :: ws =>
    (ed.connect w).toOption.bind fun c =>
      match c.result with
      | .accepted .. => c.editor.connectAll ws
      | .rejected _ => none

variable {ed ed' : Editor} {catalog : Catalog} {nodes : Nodes} {id : String} {n n' : Node}
  {w : Wire} {ws : List Wire}

theorem connectAll_cons_eq_some_iff : ed.connectAll (w :: ws) = some ed' ↔
    ∃ edge rebinding evicted,
      ed.decide ed.settings.theme w = .ok (.accepted edge rebinding evicted) ∧
      (ed.install (.accepted edge rebinding evicted)).connectAll ws = some ed' := by
  rw [connectAll]
  cases hd : ed.decide ed.settings.theme w with
  | error f => simp [connect_of_decide_error hd, Except.toOption]
  | ok d =>
    obtain ⟨c, hc, rfl, hed⟩ := exists_connect_of_decide hd
    rw [toOption_eq_some_iff.mpr hc, Option.bind_some, hed]
    cases hresult : c.result with
    | rejected reason => simp
    | accepted edge rebinding evicted => simp

section

variable (hfirst : catalog.FirstOrder) (hscoped : catalog.WellScoped)
  (hcatalog : ed.catalog = catalog) (hnodes : ed.graph.nodes = nodes) (hn : nodes.get? id = some n)

include hfirst hscoped hcatalog hnodes hn

/-- One wire: the node gets the least bindings that match it, and the other wires are still such
wires. -/
theorem least_of_decide {side : Side} (hw : w.Determines catalog nodes id side) {edge : Edge}
    {rebinding : Option Rebinding} {evicted : List String}
    (hd : ed.decide ed.settings.theme w = .ok (.accepted edge rebinding evicted)) : ∃ b,
      (ed.install (.accepted edge rebinding evicted)).graph.nodes =
        nodes.insert id { n with bindings := b } ∧
      n.Least catalog (fun n' => w.Matched catalog (nodes.insert id n')) { n with bindings := b } ∧
      ∀ (w' : Wire) (side' : Side), w'.Determines catalog nodes id side' →
        w'.Determines catalog (nodes.insert id { n with bindings := b }) id side' := by
  subst hcatalog hnodes
  obtain ⟨t, d, c, hasks⟩ := hw.exists_asks hscoped hn
  obtain ⟨b, hafter, hleast, hnew⟩ :=
    hasks.least_of_fits hfirst hscoped (Decision.fits_of_accepted hd) edge evicted
  rw [hw.here] at hafter hleast
  refine ⟨b, ?_, hleast, fun w' side' hw' => hw'.insert hn hleast.self.1 hnew⟩
  rw [nodes_install, hafter]

/-- Wires that are all accepted leave the least bindings that match them all. -/
theorem least_of_connectAll (hws : ∀ w ∈ ws, ∃ side, w.Determines catalog nodes id side)
    (h : ed.connectAll ws = some ed') : ∃ b,
      ed'.graph.nodes = nodes.insert id { n with bindings := b } ∧
      n.Least catalog (fun n' => ∀ w ∈ ws, w.Matched catalog (nodes.insert id n'))
        { n with bindings := b } := by
  induction ws generalizing ed nodes n with
  | nil =>
    obtain rfl : ed = ed' := Option.some.inj h
    refine ⟨n.bindings, ?_, fun n' => by simp⟩
    rw [hnodes]
    exact (Table.insert_eq_self hn).symm
  | cons w ws ih =>
    obtain ⟨edge, rebinding, evicted, hd, hrest⟩ := connectAll_cons_eq_some_iff.mp h
    obtain ⟨⟨side, hw⟩, hws⟩ := List.forall_mem_cons.mp hws
    obtain ⟨b, hnodes₁, hleast, hkeeps⟩ :=
      least_of_decide hfirst hscoped hcatalog hnodes hn hw hd
    obtain ⟨b', hnodes₂, hleast'⟩ := ih ((catalog_install ..).trans hcatalog) hnodes₁
      (Table.get?_insert_self ..) (fun w' hw' => (hws w' hw').imp (hkeeps w')) hrest
    -- The node is replaced once more, so the later wires ask the same of it as at first.
    simp only [Table.insert_insert] at hnodes₂ hleast'
    refine ⟨b', hnodes₂, (hleast.trans hleast').congr fun n' _ => ?_⟩
    rw [List.forall_mem_cons]

/-- Wires are all accepted if some bindings match them all. -/
theorem exists_connectAll (hws : ∀ w ∈ ws, ∃ side, w.Determines catalog nodes id side)
    (hext : n.Extended catalog n') (hall : ∀ w ∈ ws, w.Matched catalog (nodes.insert id n')) :
    ∃ ed', ed.connectAll ws = some ed' := by
  induction ws generalizing ed nodes n with
  | nil => exact ⟨ed, rfl⟩
  | cons w ws ih =>
    obtain ⟨⟨side, hw⟩, hws⟩ := List.forall_mem_cons.mp hws
    obtain ⟨hmatched, hall⟩ := List.forall_mem_cons.mp hall
    obtain ⟨t, d, c, hasks⟩ := hw.exists_asks hscoped hn
    rw [← hw.here] at hmatched
    obtain ⟨rebinding, hfits⟩ := hasks.exists_fits hfirst hscoped hext hmatched
    obtain ⟨edge, evicted, hmake⟩ := Decision.exists_accepted_of_fits hfits ed.settings.palette
      ed.settings.unresolved ed.graph.edges
    have hd : ed.decide ed.settings.theme w = .ok (.accepted edge rebinding evicted) := by
      subst hcatalog hnodes
      exact hmake
    obtain ⟨b, hnodes₁, hleast, hkeeps⟩ :=
      least_of_decide hfirst hscoped hcatalog hnodes hn hw hd
    rw [hw.here] at hmatched
    obtain ⟨ed', hrest⟩ := ih ((catalog_install ..).trans hcatalog) hnodes₁
      (Table.get?_insert_self ..) (fun w' hw' => (hws w' hw').imp (hkeeps w'))
      ((hleast n').mpr ⟨hext, hmatched⟩) (by simpa only [Table.insert_insert] using hall)
    exact ⟨ed', connectAll_cons_eq_some_iff.mpr ⟨edge, rebinding, evicted, hd, hrest⟩⟩

end

theorem connectAll_perm (ed : Editor) (hfirst : ed.catalog.FirstOrder)
    (hscoped : ed.catalog.WellScoped) (id : String) (n : Node)
    (hn : ed.graph.nodes.get? id = some n) (ws ws' : List Wire) (hperm : ws.Perm ws')
    (hws : ∀ w ∈ ws, ∃ side, w.Determines ed.catalog ed.graph.nodes id side) :
    ((∃ ed', ed.connectAll ws = some ed') ↔ ∃ ed', ed.connectAll ws' = some ed') ∧
    ∀ ed₁ ed₂, ed.connectAll ws = some ed₁ → ed.connectAll ws' = some ed₂ →
      ∃ b₁ b₂ : Bindings, ed₁.graph.nodes = ed.graph.nodes.insert id { n with bindings := b₁ } ∧
        ed₂.graph.nodes = ed.graph.nodes.insert id { n with bindings := b₂ } ∧
        ∀ p, b₁.get? p = b₂.get? p := by
  have hws' : ∀ w ∈ ws', ∃ side, w.Determines ed.catalog ed.graph.nodes id side :=
    fun w hw => hws w (hperm.mem_iff.mpr hw)
  have hsame : ∀ n', (∀ w ∈ ws, w.Matched ed.catalog (ed.graph.nodes.insert id n')) ↔
      ∀ w ∈ ws', w.Matched ed.catalog (ed.graph.nodes.insert id n') :=
    fun n' => forall_congr' fun w => by rw [hperm.mem_iff]
  refine ⟨⟨?_, ?_⟩, ?_⟩
  · rintro ⟨ed₁, h₁⟩
    obtain ⟨b, -, hleast⟩ := least_of_connectAll hfirst hscoped rfl rfl hn hws h₁
    exact exists_connectAll hfirst hscoped rfl rfl hn hws' hleast.self.1
      ((hsame _).mp hleast.self.2)
  · rintro ⟨ed₂, h₂⟩
    obtain ⟨b, -, hleast⟩ := least_of_connectAll hfirst hscoped rfl rfl hn hws' h₂
    exact exists_connectAll hfirst hscoped rfl rfl hn hws hleast.self.1
      ((hsame _).mpr hleast.self.2)
  · intro ed₁ ed₂ h₁ h₂
    obtain ⟨b₁, hnodes₁, hleast₁⟩ := least_of_connectAll hfirst hscoped rfl rfl hn hws h₁
    obtain ⟨b₂, hnodes₂, hleast₂⟩ := least_of_connectAll hfirst hscoped rfl rfl hn hws' h₂
    exact ⟨b₁, b₂, hnodes₁, hnodes₂,
      hleast₁.unique (hleast₂.congr fun n' _ => (hsame n').symm)⟩

/-! One wire settles both parameters of a node, so after it the other one is only compared; before
it, the other one is resolved.  The bindings are made in another order then. -/

def joinCatalog : Catalog := Table.ofList [
  ("StartNode", Session.sampleType [] [] []),
  ("Number", Session.sampleType [] [("value", "int")] []),
  ("Couple", Session.sampleType [] [("both", "pair<int, str>")] []),
  ("Join", Session.sampleType [("left", "pair<A, B>"), ("right", "A")] [] ["A", "B"])]

def joinNodes : List Action := [.add "Couple" .zero, .add "Number" .zero, .add "Join" .zero]

def joinEditor : Editor := ((Session.start joinCatalog .standard).run joinNodes).editor

def joinLeft : Wire := ⟨"1", some "both", "3", some "left"⟩

def joinRight : Wire := ⟨"2", some "value", "3", some "right"⟩

def joinedNames (ws : List Wire) : Option (List String) :=
  (joinEditor.connectAll ws).bind fun ed => (ed.graph.nodes.get? "3").map (·.bindings.keys)

theorem connectAll_perm_join :
    joinCatalog.FirstOrder ∧ joinCatalog.WellScoped ∧
    joinedNames [joinLeft, joinRight] = some ["A", "B"] ∧
    joinedNames [joinRight, joinLeft] = some ["B", "A"] ∧
    ∃ n ed₁ ed₂, joinEditor.graph.nodes.get? "3" = some n ∧
      (∀ w ∈ [joinLeft, joinRight], ∃ side,
        w.Determines joinEditor.catalog joinEditor.graph.nodes "3" side) ∧
      joinEditor.connectAll [joinLeft, joinRight] = some ed₁ ∧
      joinEditor.connectAll [joinRight, joinLeft] = some ed₂ ∧
      ∃ b₁ b₂ : Bindings,
        ed₁.graph.nodes = joinEditor.graph.nodes.insert "3" { n with bindings := b₁ } ∧
        ed₂.graph.nodes = joinEditor.graph.nodes.insert "3" { n with bindings := b₂ } ∧
        ∀ p, b₁.get? p = b₂.get? p := by
  have hfirst : joinCatalog.FirstOrder := by decide +kernel
  have hscoped : joinCatalog.WellScoped := by decide +kernel
  have hleft : joinedNames [joinLeft, joinRight] = some ["A", "B"] := by decide +kernel
  have hright : joinedNames [joinRight, joinLeft] = some ["B", "A"] := by decide +kernel
  obtain ⟨hcatalog, -, htyped, -⟩ :=
    Session.keeps_typed hfirst hscoped .standard joinNodes (by decide)
  have hrun : ((Session.start joinCatalog .standard).run joinNodes).editor = joinEditor := rfl
  rw [hrun] at hcatalog htyped
  have hwires : ∀ w ∈ [joinLeft, joinRight], ∃ side,
      w.Determines joinEditor.catalog joinEditor.graph.nodes "3" side := by
    rw [hcatalog, List.forall_mem_cons, List.forall_mem_singleton]
    refine ⟨⟨.input, rfl, by decide, ?_, ?_, fun s m hm => htyped.ground _ m hm⟩,
      ⟨.input, rfl, by decide, ?_, ?_, fun s m hm => htyped.ground _ m hm⟩⟩
    · exact ⟨.node "pair" [.leaf "A", .leaf "B"], ["A", "B"],
        toOption_eq_some_iff.mp (by decide +kernel), by decide⟩
    · exact ⟨.node "pair" [.leaf "int", .leaf "str"],
        toOption_eq_some_iff.mp (by decide +kernel), by decide⟩
    · exact ⟨.leaf "A", ["A", "B"], toOption_eq_some_iff.mp (by decide +kernel), by decide⟩
    · exact ⟨.leaf "int", toOption_eq_some_iff.mp (by decide +kernel), by decide⟩
  obtain ⟨n, hn⟩ : ∃ n, joinEditor.graph.nodes.get? "3" = some n :=
    Option.isSome_iff_exists.mp (by decide +kernel)
  obtain ⟨ed₁, h₁, -⟩ := Option.bind_eq_some_iff.mp hleft
  obtain ⟨ed₂, h₂, -⟩ := Option.bind_eq_some_iff.mp hright
  have hperm : [joinLeft, joinRight].Perm [joinRight, joinLeft] := .swap ..
  obtain ⟨-, hsame⟩ := connectAll_perm joinEditor (hcatalog ▸ hfirst) (hcatalog ▸ hscoped) "3" n hn
    _ _ hperm hwires
  exact ⟨hfirst, hscoped, hleft, hright, n, ed₁, ed₂, hn, hwires, h₁, h₂, hsame ed₁ ed₂ h₁ h₂⟩

end Editor
end Patchbay
