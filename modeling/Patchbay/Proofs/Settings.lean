import Patchbay.Settings
import Patchbay.Proofs.Path
import Patchbay.Proofs.TypeTree.Document

/-!
Settings are brought into shape once, and overrides laid over them twice are laid over them once.

Reading looks at four sections and at nothing else (`Reads`).  Settings that were read are `Normal`,
and normal settings are read back from their own sections.  Overrides with names for keys act on
sections as on tables (`layer`), so laying them again meets, in every section, either the same
override or the section that settings in shape write down for themselves.
-/

namespace Patchbay

/-! ### Texts of values -/

namespace Number

theorem positional_ne_nil (digits : List Char) (point : Int) : positional digits point ≠ [] := by
  rw [positional]
  split <;> simp

theorem decimalChars_ne_nil (style : FloatStyle) (d : Decimal) : decimalChars style d ≠ [] := by
  rw [decimalChars]
  split
  · exact positional_ne_nil _ _
  · simp [scientific]

theorem floatText_plain_ne_empty (x : Float) : floatText .plain x ≠ "" := by
  rw [floatText]
  split
  · decide
  · split <;> decide
  · next d _ =>
    intro h
    have hnil := congrArg String.toList h
    rw [String.toList_ofList] at hnil
    split at hnil
    · cases hnil
    · exact decimalChars_ne_nil _ _ hnil

end Number

namespace Value

theorem roundBrackets_ne_empty (xs : List String) : roundBrackets xs ≠ "" := by
  rw [roundBrackets.eq_def]
  split <;> simp

/-- Only the empty text is written as nothing, and it counts as false. -/
theorem text_ne_empty {v : Value} (h : v.truthy = true) : v.text ≠ "" := by
  cases v with
  | null => cases h
  | bool b => cases b <;> simp [text, shown]
  | int n =>
    rw [text, shown, Int.toString_eq_repr]
    · cases n <;> simp [Int.repr]
    · simp
  | float x => simpa [text, shown] using Number.floatText_plain_ne_empty x
  | str s => simpa [truthy, text] using h
  | list xs => simp [text, shown]
  | tuple xs => simpa [text, shown] using roundBrackets_ne_empty _
  | dict fs => simp [text, shown]

end Value

/-! ### Records -/

namespace Table

def fields (t : Table Value) : List (Value × Value) := t.entries.map fun e => (.str e.1, e.2)

theorem named?_fields (t : Table Value) (name : String) :
    Value.named? name t.fields = t.get? name := Value.named?_record name t.entries

theorem putField_fields (t : Table Value) (k : String) (x : Value) :
    Value.putField (.str k) x t.fields = (t.insert k x).fields := by
  have hput : ∀ l : List (String × Value),
      Value.putField (.str k) x (l.map fun e => (.str e.1, e.2)) =
        (put k x l).map fun e => (.str e.1, e.2) := by
    intro l
    induction l with
    | nil => rfl
    | cons e rest ih =>
      rw [List.map_cons, Value.putField, put, ih]
      by_cases hk : e.1 = k <;> simp [hk]
  exact hput t.entries

/-- Tables that belong together name by name stand side by side. -/
theorem forall₂_entries_iff {α β : Type} {R : String → α → β → Prop} {s : Table α} {t : Table β} :
    List.Forall₂ (fun e e' => e'.1 = e.1 ∧ R e.1 e.2 e'.2) s.entries t.entries ↔
      t.keys = s.keys ∧
        ∀ name x, s.get? name = some x → ∃ y, R name x y ∧ t.get? name = some y := by
  obtain ⟨l, hl⟩ := s
  obtain ⟨l', hl'⟩ := t
  simp only [keys, get?]
  -- Names are distinct, so a name of the rest is looked up in the rest.
  induction l generalizing l' with
  | nil => simp
  | cons e rest ih =>
    cases l' with
    | nil => simp
    | cons e' rest' =>
      obtain ⟨k, x⟩ := e
      obtain ⟨k', y⟩ := e'
      rw [List.map_cons, List.nodup_cons] at hl hl'
      rw [List.forall₂_cons, ih hl.2 rest' hl'.2]
      constructor
      · rintro ⟨⟨rfl, hxy⟩, hkeys, hrest⟩
        refine ⟨by rw [List.map_cons, List.map_cons, hkeys], fun name z hz => ?_⟩
        rw [lookup_cons_eq_ite] at hz ⊢
        by_cases hname : name = k'
        · rw [if_pos hname] at hz ⊢
          obtain rfl := Option.some.inj hz
          exact ⟨y, hname ▸ hxy, rfl⟩
        · rw [if_neg hname] at hz ⊢
          exact hrest name z hz
      · rintro ⟨hkeys, hall⟩
        obtain ⟨rfl, hrest⟩ := List.cons.inj hkeys
        obtain ⟨w, hxw, hw⟩ := hall k' x List.lookup_cons_self
        obtain rfl := Option.some.inj (List.lookup_cons_self.symm.trans hw)
        refine ⟨⟨rfl, hxw⟩, hrest, fun name z hz => ?_⟩
        have hname : name ≠ k' := by
          rintro rfl
          rw [lookup_eq_none_of_notMem hl.1] at hz
          cases hz
        have hall' := hall name z
        rw [lookup_cons_eq_ite, if_neg hname, lookup_cons_eq_ite, if_neg hname] at hall'
        exact hall' hz

end Table

namespace Settings

/-! ### Overrides on tables -/

/-- Enter overrides into a table as they are laid over fields. -/
def layer (t : Table Value) (overrides : List (String × Value)) : Table Value :=
  overrides.foldl (fun r e => r.insert e.1 (overlaid (r.get? e.1) e.2)) t

theorem overlay_fields (t : Table Value) (overrides : List (String × Value)) :
    overlay t.fields (overrides.map fun e => (.str e.1, e.2)) = (layer t overrides).fields := by
  induction overrides generalizing t with
  | nil => simp [overlay, layer]
  | cons e rest ih =>
    have hold : Value.findField? (.str e.1) t.fields = t.get? e.1 := t.named?_fields e.1
    rw [List.map_cons, overlay, hold, t.putField_fields, ih]
    rfl

theorem overlaid_of_ne_dict {v : Value} (h : ∀ fields, v ≠ .dict fields) (old : Option Value) :
    overlaid old v = v := by
  rw [overlaid]
  exact h

theorem overlaid_of_old_ne_dict {old : Option Value} (h : ∀ fields, old ≠ some (.dict fields))
    (v : Value) : overlaid old v = v := by
  by_cases hv : ∃ fields, v = .dict fields
  · obtain ⟨fields, rfl⟩ := hv
    rw [overlaid]
    exact h
  · exact overlaid_of_ne_dict (fun fields e => hv ⟨fields, e⟩) old

theorem get?_layer (t overrides : Table Value) (k : String) :
    (layer t overrides.entries).get? k =
      ((overrides.get? k).map (overlaid (t.get? k))).or (t.get? k) := by
  have hlist : ∀ (l : List (String × Value)) (t : Table Value), (l.map Prod.fst).Nodup →
      (layer t l).get? k = ((l.lookup k).map (overlaid (t.get? k))).or (t.get? k) := by
    intro l
    induction l with
    | nil => exact fun _ _ => rfl
    | cons e rest ih =>
      intro t hl
      obtain ⟨j, v⟩ := e
      rw [List.map_cons, List.nodup_cons] at hl
      rw [layer, List.foldl_cons, ← layer, ih _ hl.2, Table.get?_insert, Table.lookup_cons_eq_ite]
      by_cases hk : k = j
      · -- No later override has this name.
        subst hk
        simp [Table.lookup_eq_none_of_notMem hl.1]
      · simp [hk]
  exact hlist overrides.entries t overrides.distinct

theorem get?_layer_of_ne_dict {t : Table Value} {k : String}
    (h : ∀ fields, t.get? k ≠ some (.dict fields)) (overrides : Table Value) :
    (layer t overrides.entries).get? k = (overrides.get? k).or (t.get? k) := by
  rw [get?_layer]
  cases overrides.get? k with
  | none => rfl
  | some v => rw [Option.map_some, overlaid_of_old_ne_dict h]

theorem keys_layer {t : Table Value} {overrides : List (String × Value)}
    (h : ∀ e ∈ overrides, e.1 ∈ t.keys) : (layer t overrides).keys = t.keys := by
  induction overrides generalizing t with
  | nil => rfl
  | cons e rest ih =>
    obtain ⟨y, hy⟩ := Table.mem_keys_iff.mp (h e List.mem_cons_self)
    have hkeys := Table.keys_insert_of_get? hy (overlaid (t.get? e.1) e.2)
    rw [layer, List.foldl_cons, ← layer, ih, hkeys]
    intro e' he'
    rw [hkeys]
    exact h e' (List.mem_cons_of_mem e he')

/-! ### Colors -/

theorem colorOr_toValue (fallback c : Rgb) : colorOr fallback c.toValue = .ok c := rfl

theorem colorsOfFields_eq_ok_iff {t : Table Value} {colors : Table Rgb} :
    colorsOfFields t.fields = .ok colors ↔ colors.keys = t.keys ∧
      ∀ name v, t.get? name = some v →
        ∃ c, colorOr (colorFallback name) v = .ok c ∧ colors.get? name = some c := by
  rw [← Table.forall₂_entries_iff (R := fun name v c => colorOr (colorFallback name) v = .ok c),
    colorsOfFields, bind_eq_ok_iff]
  simp only [mapM_eq_ok_iff, Table.fields, List.forall₂_map_left_iff]
  have hentry : ∀ (e : String × Value) (e' : String × Rgb),
      (colorOr (colorFallback e.1) e.2 >>= fun c => pure (e.1, c)) = .ok e' ↔
        e'.1 = e.1 ∧ colorOr (colorFallback e.1) e.2 = .ok e'.2 := by
    rintro e ⟨name, c⟩
    rw [bind_eq_ok_iff]
    constructor
    · rintro ⟨_, hc, h⟩
      cases h
      exact ⟨rfl, hc⟩
    · rintro ⟨rfl, hc⟩
      exact ⟨c, hc, rfl⟩
  constructor
  · rintro ⟨l, hl, hcolors⟩
    have hall := hl.imp fun e e' => (hentry e e').mp
    have hkeys : t.entries.map Prod.fst = l.map Prod.fst := by
      rw [← List.forall₂_eq_eq_eq, List.forall₂_map_left_iff, List.forall₂_map_right_iff]
      exact hall.imp fun e e' h => h.1.symm
    have hofList := Table.ofList_entries ⟨l, hkeys ▸ t.distinct⟩
    obtain rfl := Except.ok.inj hcolors
    rw [hofList]
    exact hall
  · intro hall
    refine ⟨colors.entries, hall.imp fun e e' => (hentry e e').mpr, ?_⟩
    rw [Table.ofList_entries]
    rfl

/-- What colors laid over colors come to. -/
theorem colorsOfFields_layer_iff {base colors : Table Rgb} {names : Table Value} :
    colorsOfFields (layer (base.map Rgb.toValue) names.entries).fields = .ok colors ↔
      colors.keys = (layer (base.map Rgb.toValue) names.entries).keys ∧
      (∀ name v, names.get? name = some v →
        ∃ c, colorOr (colorFallback name) v = .ok c ∧ colors.get? name = some c) ∧
      ∀ name, names.get? name = none → colors.get? name = base.get? name := by
  have hbase : ∀ name fields, (base.map Rgb.toValue).get? name ≠ some (.dict fields) := by
    intro name fields
    rw [Table.get?_map]
    cases base.get? name <;> simp [Rgb.toValue]
  have hget : ∀ name, (layer (base.map Rgb.toValue) names.entries).get? name =
      (names.get? name).or ((base.get? name).map Rgb.toValue) := by
    intro name
    rw [get?_layer_of_ne_dict (hbase name), Table.get?_map]
  rw [colorsOfFields_eq_ok_iff]
  refine and_congr_right fun hkeys => ⟨fun h => ⟨fun name v hv => ?_, fun name hname => ?_⟩, ?_⟩
  · exact h name v (by rw [hget, hv, Option.some_or])
  · have hcolor := hget name
    rw [hname, Option.none_or] at hcolor
    cases hb : base.get? name with
    | none =>
      rw [hb, Option.map_none, Table.get?_eq_none_iff, ← hkeys, ← Table.get?_eq_none_iff] at hcolor
      exact hcolor
    | some c =>
      rw [hb, Option.map_some] at hcolor
      obtain ⟨c', hc', hget'⟩ := h name _ hcolor
      rw [colorOr_toValue] at hc'
      rw [hget', Except.ok.inj hc']
  · rintro ⟨hover, hkept⟩ name v hv
    rw [hget] at hv
    cases hname : names.get? name with
    | some w =>
      rw [hname, Option.some_or] at hv
      exact hover name v (hname.trans hv)
    | none =>
      rw [hname, Option.none_or, Option.map_eq_some_iff] at hv
      obtain ⟨c, hc, rfl⟩ := hv
      exact ⟨c, rfl, (hkept name hname).trans hc⟩

theorem colorsOfFields_map (colors : Table Rgb) :
    colorsOfFields (colors.map Rgb.toValue).fields = .ok colors := by
  rw [colorsOfFields_eq_ok_iff, Table.keys_map]
  refine ⟨rfl, fun name v hv => ?_⟩
  rw [Table.get?_map, Option.map_eq_some_iff] at hv
  obtain ⟨c, hc, rfl⟩ := hv
  exact ⟨c, colorOr_toValue _ c, hc⟩

theorem colorsOfFields_layer_again {base colors : Table Rgb} {names : Table Value}
    (h : colorsOfFields (layer (base.map Rgb.toValue) names.entries).fields = .ok colors) :
    colorsOfFields (layer (colors.map Rgb.toValue) names.entries).fields = .ok colors := by
  obtain ⟨-, hover, -⟩ := colorsOfFields_layer_iff.mp h
  refine colorsOfFields_layer_iff.mpr ⟨?_, hover, fun _ _ => rfl⟩
  rw [keys_layer, Table.keys_map]
  intro e he
  obtain ⟨c, -, hc⟩ := hover e.1 e.2 (Table.get?_eq_some_iff.mpr he)
  rw [Table.keys_map]
  exact Table.mem_keys_iff.mpr ⟨c, hc⟩

/-! ### Shape -/

def sections (s : Settings) : Table Value where
  entries :=
    [("colors", .dict (s.colors.map Rgb.toValue).fields),
      ("unresolved_color", s.unresolved.toValue),
      ("start_node_id", .str s.startId),
      ("node_metas_path", s.catalogPath.elim .null fun p => .str p.text)]
  distinct := by simp

theorem toFields_eq (s : Settings) : s.toFields = s.sections.fields := by
  simp [toFields, sections, Table.fields, Table.map, Value.record]

theorem sections_ne_dict (s : Settings) {name : String} (hname : name ≠ "colors")
    (fields : List (Value × Value)) : s.sections.get? name ≠ some (.dict fields) := by
  intro h
  have hmem := Table.get?_eq_some_iff.mp h
  rw [sections] at hmem
  cases hpath : s.catalogPath <;> simp [hname, hpath, Rgb.toValue] at hmem

structure Reads (sections : String → Option Value) (s : Settings) : Prop where
  colors : colorsOfValue (sections "colors") = .ok s.colors
  unresolved : colorOr .unresolved ((sections "unresolved_color").getD .null) = .ok s.unresolved
  startId : startOfValue (sections "start_node_id") = s.startId
  catalogPath : pathOfValue (sections "node_metas_path") = .ok s.catalogPath

theorem ofFields_eq_ok_iff {fields : List (Value × Value)} {s : Settings} :
    ofFields fields = .ok s ↔ Reads (fun name => Value.named? name fields) s := by
  rw [ofFields]
  simp only [bind_eq_ok_iff]
  constructor
  · rintro ⟨colors, hcolors, unresolved, hunresolved, path, hpath, h⟩
    cases h
    exact ⟨hcolors, hunresolved, rfl, hpath⟩
  · rintro ⟨hcolors, hunresolved, hstart, hpath⟩
    refine ⟨s.colors, hcolors, s.unresolved, hunresolved, s.catalogPath, hpath, ?_⟩
    rw [hstart]
    rfl

theorem ofFields_fields_eq_ok_iff {t : Table Value} {s : Settings} :
    ofFields t.fields = .ok s ↔ Reads t.get? s := by
  rw [ofFields_eq_ok_iff]
  simp only [Table.named?_fields]

/-- Settings in the shape that reading gives them. -/
structure Normal (s : Settings) : Prop where
  named : s.startId ≠ ""
  settled : ∀ p, s.catalogPath = some p → p.Settled

theorem startOfValue_ne_empty (v : Option Value) : startOfValue v ≠ "" := by
  cases v with
  | none => decide
  | some v =>
    rw [startOfValue]
    split
    · next h => exact Value.text_ne_empty h
    · decide

theorem settled_of_pathOfValue {v : Option Value} {p : Path} (h : pathOfValue v = .ok (some p)) :
    p.Settled := by
  cases v with
  | none => cases h
  | some v =>
    cases v with
    | str s =>
      cases h
      exact Path.settled_ofText s
    | _ => cases h

theorem Reads.normal {sections : String → Option Value} {s : Settings} (h : Reads sections s) :
    s.Normal where
  named := h.startId ▸ startOfValue_ne_empty _
  settled _ hp := settled_of_pathOfValue (hp ▸ h.catalogPath)

/-- Settings in shape are read back from what is written down for them. -/
theorem Normal.reads_sections {s : Settings} (h : s.Normal) : Reads s.sections.get? s where
  colors := colorsOfFields_map s.colors
  unresolved := rfl
  startId := by
    show (if (s.startId != "") = true then s.startId else "start") = s.startId
    rw [if_pos (by simpa using h.named)]
  catalogPath := by
    show pathOfValue (some (s.catalogPath.elim .null fun p => .str p.text)) = .ok s.catalogPath
    cases hpath : s.catalogPath with
    | none => rfl
    | some p =>
      show Except.ok (some (Path.ofText p.text)) = .ok (some p)
      rw [Path.ofText_text (h.settled p hpath)]

/-! ### Layers -/

theorem merge_fields {s : Settings} (h : s.Normal) (o : Table Value) :
    s.merge (.dict o.fields) = ofFields (layer s.sections o.entries).fields := by
  by_cases ho : o.entries = []
  · -- Settings that nothing is laid over are not read again, but reading would not change them.
    have hread := ofFields_fields_eq_ok_iff.mpr h.reads_sections
    rw [Table.fields, ho, layer, List.foldl_nil, hread]
    rfl
  · have htruthy : (Value.dict o.fields).truthy = true := by simp [Value.truthy, Table.fields, ho]
    rw [merge, if_pos htruthy, toFields_eq, ← overlay_fields]
    rfl

theorem get?_layer_sections (s : Settings) (o : Table Value) {name : String}
    (hname : name ≠ "colors") :
    (layer s.sections o.entries).get? name = (o.get? name).or (s.sections.get? name) :=
  get?_layer_of_ne_dict (s.sections_ne_dict hname) o

theorem get?_layer_colors_of_fields (s : Settings) {o names : Table Value}
    (h : o.get? "colors" = some (.dict names.fields)) :
    (layer s.sections o.entries).get? "colors" =
      some (.dict (layer (s.colors.map Rgb.toValue) names.entries).fields) := by
  have hcolors : s.sections.get? "colors" = some (.dict (s.colors.map Rgb.toValue).fields) := rfl
  rw [get?_layer, h, hcolors, Option.map_some, Option.some_or, overlaid, ← overlay_fields]
  rfl

/-- Of overrides that are laid a second time, every section is found as it was the first time, or
it is not among them and has been in shape since. -/
theorem Reads.again {s s' : Settings} {o : Table Value}
    (ho : ∀ fields, o.get? "colors" = some (.dict fields) →
      ∃ names : Table Value, fields = names.fields)
    (h : Reads (layer s.sections o.entries).get? s') :
    Reads (layer s'.sections o.entries).get? s' := by
  have hown := h.normal.reads_sections
  have hplain : ∀ (P : Option Value → Prop) (name : String), name ≠ "colors" →
      P ((layer s.sections o.entries).get? name) → P (s'.sections.get? name) →
      P ((layer s'.sections o.entries).get? name) := by
    intro P name hname hfirst hkept
    rw [get?_layer_sections _ _ hname] at hfirst ⊢
    cases hover : o.get? name with
    | none => exact hkept
    | some v =>
      rw [hover] at hfirst
      exact hfirst
  refine ⟨?_, ?_, ?_, ?_⟩
  · cases hover : o.get? "colors" with
    | none =>
      rw [get?_layer, hover]
      exact hown.colors
    | some v =>
      -- Colors are laid over colors only where both are dictionaries.
      by_cases hdict : ∃ fields, v = .dict fields
      · obtain ⟨fields, rfl⟩ := hdict
        obtain ⟨names, rfl⟩ := ho fields hover
        have hfirst := h.colors
        rw [get?_layer_colors_of_fields _ hover] at hfirst ⊢
        exact colorsOfFields_layer_again hfirst
      · have hfirst := h.colors
        have hv := overlaid_of_ne_dict fun fields e => hdict ⟨fields, e⟩
        rw [get?_layer, hover, Option.map_some, hv, Option.some_or] at hfirst ⊢
        exact hfirst
  · exact hplain (fun x => colorOr .unresolved (x.getD .null) = .ok s'.unresolved) _ (by decide)
      h.unresolved hown.unresolved
  · exact hplain (fun x => startOfValue x = s'.startId) _ (by decide) h.startId hown.startId
  · exact hplain (fun x => pathOfValue x = .ok s'.catalogPath) _ (by decide)
      h.catalogPath hown.catalogPath

theorem Reads.colors_of_none {s s' : Settings} {o : Table Value} (hs : s.Normal)
    (h : Reads (layer s.sections o.entries).get? s') (ho : o.get? "colors" = none) :
    s'.colors = s.colors := by
  have hread := h.colors
  rw [get?_layer, ho] at hread
  exact Except.ok.inj (hread.symm.trans hs.reads_sections.colors)

theorem normal_of_ofValue {v : Value} {s : Settings} (h : ofValue v = .ok s) : s.Normal := by
  rw [ofValue] at h
  split at h
  all_goals
    obtain ⟨fields, -, hfields⟩ := bind_eq_ok_iff.mp h
    exact (ofFields_eq_ok_iff.mp hfields).normal

theorem ofValue_toValue {s : Settings} (h : s.Normal) : ofValue s.toValue = .ok s := by
  have hread := ofFields_fields_eq_ok_iff.mpr h.reads_sections
  rw [toValue, toFields_eq]
  exact hread

/-- Settings that were read are read back from what they write down.  Overrides laid over them twice
are laid over them once, colors that they do not name are kept, and those that they name are theirs.
Of the overrides, `colors` may be anything; where it is a dictionary, its keys are names. -/
theorem normalise_once_and_layer {v : Value} {s : Settings} (h : ofValue v = .ok s) :
    ofValue s.toValue = .ok s ∧
    ∀ o : Table Value,
      (∀ fields, o.get? "colors" = some (.dict fields) →
        ∃ names : Table Value, fields = names.fields) →
      ∀ s', s.merge (.dict o.fields) = .ok s' →
        s'.merge (.dict o.fields) = .ok s' ∧
        (o.get? "colors" = none → s'.colors = s.colors) ∧
        ∀ names : Table Value, o.get? "colors" = some (.dict names.fields) →
          (∀ name, names.get? name = none → s'.colors.get? name = s.colors.get? name) ∧
          ∀ name v, names.get? name = some v →
            ∃ c, colorOr (colorFallback name) v = .ok c ∧ s'.colors.get? name = some c := by
  have hs := normal_of_ofValue h
  refine ⟨ofValue_toValue hs, fun o ho s' hmerge => ?_⟩
  rw [merge_fields hs] at hmerge
  have hread := ofFields_fields_eq_ok_iff.mp hmerge
  refine ⟨?_, hread.colors_of_none hs, fun names hnames => ?_⟩
  · rw [merge_fields hread.normal]
    exact ofFields_fields_eq_ok_iff.mpr (hread.again ho)
  · have hcolors := hread.colors
    rw [get?_layer_colors_of_fields _ hnames] at hcolors
    obtain ⟨-, hover, hkept⟩ := colorsOfFields_layer_iff.mp hcolors
    exact ⟨hkept, hover⟩

/-! A document and overrides that are both out of shape. -/

def roughDocument : Value :=
  .record [
    ("colors", .record [("int", .str "blue"), ("list<int>", .list [.int 7, .int 8, .int 9])]),
    ("start_node_id", .int 0), ("node_metas_path", .str "metas//./all.yaml")]

def roughSettings : Settings where
  colors := .ofList [("int", ⟨0, 0, 255⟩), ("list<int>", ⟨7, 8, 9⟩)]
  unresolved := .unresolved
  startId := "start"
  catalogPath := some ⟨.relative, ["metas", "all.yaml"]⟩

def roughColors : Table Value :=
  .ofList [("node", .record [("int", .null)]), ("int", .tuple [.bool true, .str " 2", .int 3])]

def roughOverrides : Table Value :=
  .ofList [("start_node_id", .list [.int 5]), ("colors", .dict roughColors.fields),
    ("unresolved_color", .record [])]

def roughLayers : Settings where
  colors := .ofList [("int", ⟨1, 2, 3⟩), ("list<int>", ⟨7, 8, 9⟩), ("node", .unresolved)]
  unresolved := .unresolved
  startId := "[5]"
  catalogPath := some ⟨.relative, ["metas", "all.yaml"]⟩

theorem normalise_once_and_layer_rough :
    ofValue roughDocument = .ok roughSettings ∧
    ofValue roughSettings.toValue = .ok roughSettings ∧
    roughSettings.merge (.dict roughOverrides.fields) = .ok roughLayers ∧
    roughLayers.merge (.dict roughOverrides.fields) = .ok roughLayers ∧
    roughLayers.colors.get? "list<int>" = roughSettings.colors.get? "list<int>" := by
  have hread : ofValue roughDocument = .ok roughSettings := by rfl
  have hmerge : roughSettings.merge (.dict roughOverrides.fields) = .ok roughLayers := by rfl
  have hcolors : roughOverrides.get? "colors" = some (.dict roughColors.fields) := by rfl
  obtain ⟨hback, hlayers⟩ := normalise_once_and_layer hread
  obtain ⟨hagain, -, hnamed⟩ := hlayers roughOverrides
    (fun fields h => by
      rw [hcolors] at h
      cases h
      exact ⟨roughColors, rfl⟩)
    roughLayers hmerge
  exact ⟨hread, hback, hmerge, hagain, (hnamed roughColors hcolors).1 "list<int>" rfl⟩

end Settings
end Patchbay
