import Mathlib.Data.List.Nodup
import Patchbay.Proofs.Graph.Typing
import Patchbay.Proofs.TypeTree.Place

/-!
Handles as they are drawn and as wires meet them.  A view is made from a port that stands in a list
and a handle is looked up by its name; the view asks whether its own type mentions any parameter,
and the handle names all parameters that its node has not bound.

The two agree as soon as the types that are bound mention no parameter (`view_agrees_with_handle`).
A parameter that is left in the type of a port then was left by the substitution, so it is free on
the node; and a type that is drawn as unresolved has a free parameter in it, not only one elsewhere
on the node.
-/

namespace Patchbay

namespace TypeTree

/-- Of the parameters, a substitution leaves those that are not bound. -/
theorem mentions_substitute_iff_unbound {b : Bindings} {params : List String}
    (hb : ∀ q x, b.get? q = some x → Ground params x) (d : TypeTree) :
    mentions params (substitute b d) = true ↔
      ∃ q ∈ params.filter (fun q => !b.contains q), q ∈ labels (substitute b d) := by
  rw [mentions_iff]
  constructor
  · rintro ⟨q, hq, hparam⟩
    refine ⟨q, ?_, hq⟩
    rcases labels_substitute b d q hq with ⟨-, hfree⟩ | ⟨r, x, hx, hqx⟩
    · simp [hparam, Table.contains_eq_false_iff.mpr hfree]
    · exact absurd hparam (hb r x hx q hqx)
  · rintro ⟨q, hq, hlabel⟩
    exact ⟨q, hlabel, (List.mem_filter.mp hq).1⟩

end TypeTree

/-! ### Views of ports -/

namespace HandleView

variable {theme : Theme} {colors : Table Rgb} {unresolved : Rgb} {t : NodeType} {n : Node}
  {side : Side} {p : Port} {v : HandleView}

theorem ofDataPort_eq_ok_iff : ofDataPort theme t n p = .ok v ↔
    ∃ d c, TypeTree.parse (expression p) = .ok d ∧
      (if (d.substitute n.bindings).mentions t.params then .ok theme.unresolved
        else Color.ofSpelling theme.palette (d.substitute n.bindings).format) = .ok c ∧
      ⟨p.name, p.name,
        some ⟨d.substitute n.bindings, (d.substitute n.bindings).mentions t.params, c⟩⟩ = v := by
  unfold ofDataPort Handle.effectiveType
  cases TypeTree.parse (expression p) with
  | error f => simp [Except.map, bind, Except.bind]
  | ok d =>
    cases hm : (d.substitute n.bindings).mentions t.params with
    | true => simp [Except.map, bind, Except.bind, pure, Except.pure, hm]
    | false =>
      cases hc : Color.ofSpelling theme.palette (d.substitute n.bindings).format with
      | error m => simp [Except.map, bind, Except.bind, hm, hc]
      | ok c => simp [Except.map, bind, Except.bind, pure, Except.pure, hm, hc]

theorem id_of_ofPort (h : ofPort theme t n side p = .ok v) : v.id = p.name := by
  unfold ofPort at h
  split at h
  · injection h with h
    rw [← h]
  · obtain ⟨_, _, -, -, rfl⟩ := ofDataPort_eq_ok_iff.mp h
    rfl

theorem map_id_of_mapM {ports : List Port} {views : List HandleView}
    (h : ports.mapM (ofPort theme t n side) = .ok views) :
    views.map HandleView.id = ports.map Port.name := by
  have hall := mapM_eq_ok_iff.mp h
  clear h
  induction hall with
  | nil => rfl
  | cons hv _ ih => rw [List.map_cons, List.map_cons, ih, id_of_ofPort hv]

theorem exists_ofDataPort {d : TypeTree} (colors : Table Rgb) (unresolved : Rgb) (t : NodeType)
    (n : Node) (hd : TypeTree.parse (expression p) = .ok d) :
    ∃ v, ofDataPort ⟨.ofColors colors, unresolved⟩ t n p = .ok v := by
  obtain ⟨c, hc⟩ := Color.exists_ofSpelling colors (d.substitute n.bindings).format
  cases hm : (d.substitute n.bindings).mentions t.params with
  | true => exact ⟨_, ofDataPort_eq_ok_iff.mpr ⟨d, unresolved, hd, by simp [hm], rfl⟩⟩
  | false => exact ⟨_, ofDataPort_eq_ok_iff.mpr ⟨d, c, hd, by simpa [hm] using hc, rfl⟩⟩

/-- With a palette of colors, a port has no view only if its type cannot be read. -/
theorem unreadable_of_ofPort {e : Fault}
    (h : ofPort ⟨.ofColors colors, unresolved⟩ t n side p = .error e) :
    ∃ f, TypeTree.parse (expression p) = .error f ∧ e = .expression f := by
  unfold ofPort at h
  split at h
  · cases h
  · cases hd : TypeTree.parse (expression p) with
    | error f =>
      refine ⟨f, rfl, ?_⟩
      simpa [ofDataPort, Handle.effectiveType, hd, Except.map, bind, Except.bind] using h.symm
    | ok d =>
      obtain ⟨v, hv⟩ := exists_ofDataPort colors unresolved t n hd
      rw [hv] at h
      cases h

end HandleView

/-! ### Ports and their names -/

/-- The ports of a side can be told apart by their names, none is named like the trigger, and their
types can be read. -/
structure NodeType.Plain (t : NodeType) (side : Side) : Prop where
  distinct : ((t.ports side).map Port.name).Nodup
  named : ∀ p ∈ t.ports side, p.name ≠ "" ∧ p.name ≠ triggerHandle
  typed : ∀ p ∈ t.ports side, p.type ≠ "" ∧ ∃ d, TypeTree.parse p.type = .ok d

instance (t : NodeType) (side : Side) : Decidable (t.Plain side) :=
  decidable_of_iff
    (((t.ports side).map Port.name).Nodup ∧
      (∀ p ∈ t.ports side, p.name ≠ "" ∧ p.name ≠ triggerHandle) ∧
      ∀ p ∈ t.ports side, p.type ≠ "" ∧ (TypeTree.parse p.type).toOption.isSome = true)
    ⟨fun ⟨hdistinct, hnamed, htyped⟩ => ⟨hdistinct, hnamed, fun p hp => by
      obtain ⟨hne, hsome⟩ := htyped p hp
      obtain ⟨d, hd⟩ := Option.isSome_iff_exists.mp hsome
      exact ⟨hne, d, toOption_eq_some_iff.mp hd⟩⟩,
    fun h => ⟨h.distinct, h.named, fun p hp => by
      obtain ⟨hne, d, hd⟩ := h.typed p hp
      exact ⟨hne, by rw [hd]; rfl⟩⟩⟩

namespace NodeType.Plain

variable {t : NodeType} {n : Node} {side : Side} {p : Port}

theorem port?_eq_some (h : t.Plain side) (hp : p ∈ t.ports side) :
    t.port? p.name side = some p := by
  have hfound : (t.port? p.name side).isSome = true := by
    rw [NodeType.port?, List.find?_isSome]
    exact ⟨p, hp, by simp⟩
  obtain ⟨q, hq⟩ := Option.isSome_iff_exists.mp hfound
  have hname : q.name = p.name := by simpa using List.find?_some hq
  rw [hq, List.inj_on_of_nodup_map h.distinct (List.mem_of_find?_eq_some hq) hp hname]

/-- An empty type would be drawn as any type; there is none here. -/
theorem exists_parse_expression (h : t.Plain side) (hp : p ∈ t.ports side) :
    ∃ d, TypeTree.parse p.type = .ok d ∧ TypeTree.parse (HandleView.expression p) = .ok d := by
  obtain ⟨hne, d, hd⟩ := h.typed p hp
  exact ⟨d, hd, by rwa [HandleView.expression, if_neg hne]⟩

theorem exists_list (h : t.Plain side) (colors : Table Rgb) (unresolved : Rgb) (n : Node) :
    ∃ views, HandleView.list ⟨.ofColors colors, unresolved⟩ t n side = .ok views ∧
      (views.map HandleView.id).Nodup ∧
      ∀ p ∈ t.ports side, ∃ v ∈ views,
        HandleView.ofPort ⟨.ofColors colors, unresolved⟩ t n side p = .ok v := by
  let theme : Theme := ⟨.ofColors colors, unresolved⟩
  have hport : ∀ p ∈ t.ports side, ∃ v, HandleView.ofPort theme t n side p = .ok v := by
    intro p hp
    obtain ⟨d, -, hd⟩ := h.exists_parse_expression hp
    unfold HandleView.ofPort
    split
    · exact ⟨_, rfl⟩
    · exact HandleView.exists_ofDataPort colors unresolved t n hd
  obtain ⟨views, hviews⟩ := exists_mapM_ok hport
  have hids := HandleView.map_id_of_mapM hviews
  have hlist : HandleView.list theme t n side =
      .ok (if HandleView.showsTrigger t n side then .trigger :: views else views) := by
    rw [HandleView.list, hviews]
    rfl
  refine ⟨_, hlist, ?_, fun p hp => ?_⟩
  · split
    · rw [List.map_cons, hids, List.nodup_cons]
      refine ⟨fun htrigger => ?_, h.distinct⟩
      obtain ⟨p, hp, hname⟩ := List.mem_map.mp htrigger
      exact (h.named p hp).2 hname
    · rw [hids]
      exact h.distinct
  · obtain ⟨v, hv, hof⟩ := exists_ok_of_mapM hviews hp
    refine ⟨v, ?_, hof⟩
    split
    · exact List.mem_cons_of_mem _ hv
    · exact hv

end NodeType.Plain

/-! ### Views and handles -/

namespace HandleView

variable {nodes : Nodes} {catalog : Catalog} {id : String} {n : Node} {t : NodeType} {p : Port}

theorem view_agrees_with_handle (hn : nodes.get? id = some n)
    (ht : catalog.get? n.nodeType = some t) (hplain : ∀ side, t.Plain side)
    (side : Side) (hp : p ∈ t.ports side) (hroute : p.type ≠ routeType) (colors : Table Rgb)
    (unresolved unresolved' : Rgb) :
    ∃ views v data free,
      list ⟨.ofColors colors, unresolved⟩ t n side = .ok views ∧
      (views.map HandleView.id).Nodup ∧ v ∈ views ∧ v.id = p.name ∧
      v.kind = .data ∧ v.data = some data ∧
      Handle.inspect nodes catalog id (some p.name) side = .ok (some (.data data.type free)) ∧
      ((∀ q x, n.bindings.get? q = some x → x.Ground t.params) →
        (data.unresolved = true ↔ ∃ q ∈ free, q ∈ data.type.labels) ∧
        (free = [] → Decision.stroke ⟨.ofColors colors, unresolved'⟩ (.data data.type free) =
          .ok (some data.color.css))) := by
  have hdata : p.isRoute = false := by simpa [Port.isRoute] using hroute
  obtain ⟨views, hviews, hids, hall⟩ := (hplain side).exists_list colors unresolved n
  obtain ⟨v, hv, hof⟩ := hall p hp
  have hid := id_of_ofPort hof
  rw [ofPort, if_neg (by simp [hdata])] at hof
  obtain ⟨d, hd, hd'⟩ := (hplain side).exists_parse_expression hp
  obtain ⟨d', c, hparse, hcolor, rfl⟩ := ofDataPort_eq_ok_iff.mp hof
  obtain rfl : d = d' := by simpa [hd'] using hparse
  have hinspect : Handle.inspect nodes catalog id (some p.name) side =
      .ok (some (.data (d.substitute n.bindings) (Handle.freeParams t n))) := by
    obtain ⟨hne, htrigger⟩ := (hplain side).named p hp
    refine Handle.inspect_eq_some_iff.mpr ⟨p.name, n, t, rfl, hne, hn, ht, ?_⟩
    exact Handle.ofNode_eq_some_iff.mpr
      (.inr (.inr ⟨htrigger, p, d, (hplain side).port?_eq_some hp, hdata, hd, rfl⟩))
  refine ⟨views, _, _, _, hviews, hids, hv, hid, rfl, rfl, hinspect, fun hground => ?_⟩
  have hflag := TypeTree.mentions_substitute_iff_unbound hground d
  refine ⟨hflag, fun hfree => ?_⟩
  -- Without a free parameter the type mentions none, so both colors are looked up by its spelling.
  have hsettled : (d.substitute n.bindings).mentions t.params = false := by
    rw [Bool.eq_false_iff, ne_eq, hflag]
    rintro ⟨q, hq, -⟩
    rw [← Handle.freeParams, hfree] at hq
    cases hq
  simp only [hsettled, Bool.false_eq_true, if_false] at hcolor
  rw [hfree]
  simp [Decision.stroke, hcolor, bind, Except.bind, pure, Except.pure]

/-! A node with one of its two parameters bound, and one with both. -/

def joinType : NodeType :=
  { title := "", category := ""
    inputs := [⟨"left", "T", .null, none⟩, ⟨"right", "U", .null, none⟩]
    outputs := [⟨"first", "list<T>", .null, none⟩, ⟨"both", "pair<T, U>", .null, none⟩,
      ⟨"done", "route", .null, none⟩]
    params := ["T", "U"], mode := none, noTrigger := false, displays := [] }

def joinNode (bindings : Bindings) : Node := { id := "1", nodeType := "Join", bindings }

def halfBound : Bindings := .ofList [("T", .leaf "int")]

def fullyBound : Bindings := .ofList [("T", .leaf "int"), ("U", .node "set" [.leaf "str"])]

/-- On the node with one parameter bound, the port `first` is drawn as resolved though a parameter
is free for a wire there.  On the other node the wire has the color of the port. -/
theorem view_agrees_with_handle_join :
    let catalog : Catalog := .ofList [("Join", joinType)]
    (∀ side, joinType.Plain side) ∧
    (∃ views v data, list .standard joinType (joinNode halfBound) .output = .ok views ∧
      (views.map HandleView.id).Nodup ∧ v ∈ views ∧ v.id = "first" ∧ v.data = some data ∧
      Handle.inspect (.ofList [joinNode halfBound]) catalog "1" (some "first") .output =
        .ok (some (.data data.type ["U"])) ∧ data.unresolved = false) ∧
    ∃ views v data, list .standard joinType (joinNode fullyBound) .output = .ok views ∧
      (views.map HandleView.id).Nodup ∧ v ∈ views ∧ v.id = "both" ∧ v.data = some data ∧
      Handle.inspect (.ofList [joinNode fullyBound]) catalog "1" (some "both") .output =
        .ok (some (.data data.type [])) ∧
      Decision.stroke .standard (.data data.type []) = .ok (some data.color.css) := by
  intro catalog
  have hplain : ∀ side, joinType.Plain side := by
    intro side
    cases side <;> decide +kernel
  have hnode : ∀ b, (Nodes.ofList [joinNode b]).get? "1" = some (joinNode b) := fun _ => rfl
  have htype : catalog.get? "Join" = some joinType := rfl
  have hground : ∀ b : Bindings, (∀ e ∈ b.entries, e.2.Ground joinType.params) →
      ∀ q x, b.get? q = some x → x.Ground joinType.params :=
    fun b hb q x hx => hb (q, x) (Table.get?_eq_some_iff.mp hx)
  refine ⟨hplain, ?_, ?_⟩
  · have hmet : Handle.inspect (.ofList [joinNode halfBound]) catalog "1" (some "first") .output =
        .ok (some (.data (.node "list" [.leaf "int"]) ["U"])) := by decide +kernel
    obtain ⟨views, v, data, free, hlist, hids, hv, hid, -, hdata, hinspect, hagree⟩ :=
      view_agrees_with_handle (hnode halfBound) htype hplain .output List.mem_cons_self
        (by decide) Palette.standardColors .unresolved .unresolved
    obtain ⟨htyped, rfl⟩ : .node "list" [.leaf "int"] = data.type ∧ ["U"] = free := by
      simpa [hmet] using hinspect
    refine ⟨views, v, data, hlist, hids, hv, hid, hdata, hinspect, ?_⟩
    rw [Bool.eq_false_iff, ne_eq, (hagree (hground halfBound (by decide +kernel))).1, ← htyped]
    decide +kernel
  · have hmet : (Handle.inspect (.ofList [joinNode fullyBound]) catalog "1" (some "both") .output) =
        .ok (some (.data (.node "pair" [.leaf "int", .node "set" [.leaf "str"]]) [])) := by
      decide +kernel
    obtain ⟨views, v, data, free, hlist, hids, hv, hid, -, hdata, hinspect, hagree⟩ :=
      view_agrees_with_handle (hnode fullyBound) htype hplain .output
        (List.mem_cons_of_mem _ List.mem_cons_self) (by decide) Palette.standardColors
        .unresolved .unresolved
    obtain ⟨-, rfl⟩ :
        .node "pair" [.leaf "int", .node "set" [.leaf "str"]] = data.type ∧ [] = free := by
      simpa [hmet] using hinspect
    exact ⟨views, v, data, hlist, hids, hv, hid, hdata, hinspect,
      (hagree (hground fullyBound (by decide +kernel))).2 rfl⟩

end HandleView
end Patchbay
