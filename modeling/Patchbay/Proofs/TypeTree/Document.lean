import Patchbay.Fault
import Patchbay.Proofs.Table
import Patchbay.Proofs.TypeTree.Substitution

/-!
Types in documents.  What is written down for a type is read back as that type, provided that its
labels are not empty and no wildcard in it has arguments (`ofValue_toValue`).

`Acceptable` is the form of a document as far as labels and lists go, and `AppliedWildcard` is what
it does not rule out.  `ofValue_decodes_exactly` says that a value is read exactly if it has that
form and no wildcard in it has arguments, and that the type that is read is written down as the
value was, less what did not count.  The reader's recursion is opened once, in `ofValue_eq_ok_iff`;
all else is by induction on the type that was read, or on the form of the document.
-/

namespace Patchbay

/-! ### Records -/

namespace Value

@[simp]
theorem sameKey_str (s t : String) : sameKey (.str s) (.str t) = (s == t) := by
  rw [sameKey]

/-- A record is looked up like the list that it is made of. -/
theorem named?_record (name : String) (fields : List (String × Value)) :
    named? name (fields.map fun e => (.str e.1, e.2)) = fields.lookup name := by
  induction fields with
  | nil => rfl
  | cons e rest ih =>
    obtain ⟨k, v⟩ := e
    rw [Table.lookup_cons_eq_ite]
    by_cases hk : name = k
    · rw [if_pos hk]
      simp [named?, findField?, hk]
    · rw [if_neg hk, ← ih]
      simp [named?, findField?, Ne.symm hk]

theorem lookup?_record (name : String) (fields : List (String × Value)) :
    (record fields).lookup? name = .ok (fields.lookup name) := by
  rw [record, lookup?, named?_record]

end Value

/-! ### Types that are read -/

namespace TypeTree

variable {l : String} {as : List TypeTree} {t : TypeTree}

/-- The items of a list, or of a tuple, which no document holds but which is read like one. -/
def sequence? : Value → Option (List Value)
  | .list vs => some vs
  | .tuple vs => some vs
  | _ => none

def documentArgs? (fields : List (Value × Value)) : Option (List Value) :=
  match Value.named? "genericTypes" fields with
  | none => some []
  | some v => sequence? v

theorem ofValues_eq_mapM (vs : List Value) : ofValues vs = vs.mapM ofValue := by
  induction vs with
  | nil => rfl
  | cons v vs ih => rw [ofValues, List.mapM_cons, ih]

theorem toValues_eq_map (as : List TypeTree) : toValues as = as.map toValue := by
  induction as with
  | nil => rfl
  | cons a as ih => rw [toValues, List.map_cons, ih]

theorem make_eq_ok_iff : make l as = .ok t ↔ (l = wildcard → as = []) ∧ .node l as = t := by
  by_cases hl : l = wildcard <;> by_cases has : as = [] <;> simp [make, hl, has]

variable {fields : List (Value × Value)}

theorem documentLabel_eq_ok_iff :
    documentLabel fields = .ok l ↔ Value.named? "mainType" fields = some (.str l) ∧ l ≠ "" := by
  unfold documentLabel
  split
  · next k hk =>
    rw [hk]
    by_cases hempty : k = ""
    · simp [hempty, eq_comm]
    · simp only [hempty, if_false, Except.ok.injEq, Option.some.injEq, Value.str.injEq]
      exact ⟨fun h => ⟨h, h ▸ hempty⟩, fun h => h.1⟩
  · next hk =>
    exact ⟨nofun, fun h => absurd h.1 (hk l)⟩

theorem documentArgs?_cons_of_key {k : Value} (v : Value) (rest : List (Value × Value))
    (hk : Value.sameKey k (.str "genericTypes") = true) :
    documentArgs? ((k, v) :: rest) = sequence? v := by
  simp [documentArgs?, Value.named?, Value.findField?, hk]

theorem documentArgs?_cons_of_not_key {k : Value} (v : Value) (rest : List (Value × Value))
    (hk : ¬Value.sameKey k (.str "genericTypes") = true) :
    documentArgs? ((k, v) :: rest) = documentArgs? rest := by
  simp [documentArgs?, Value.named?, Value.findField?, hk]

theorem argsOfFields_eq_ok_iff : argsOfFields l fields = .ok as ↔
    ∃ vs, documentArgs? fields = some vs ∧ vs.mapM ofValue = .ok as := by
  induction fields with
  | nil => simp [argsOfFields, documentArgs?, Value.named?, Value.findField?, pure, Except.pure]
  | cons field rest ih =>
    obtain ⟨k, v⟩ := field
    by_cases hk : Value.sameKey k (.str "genericTypes") = true
    · rw [argsOfFields, if_pos hk, documentArgs?_cons_of_key v rest hk]
      cases v <;> simp [argsOfValue, sequence?, ofValues_eq_mapM]
    · rw [argsOfFields, if_neg hk, documentArgs?_cons_of_not_key v rest hk, ih]

/-- All that has to be right for a value to be read. -/
theorem ofValue_eq_ok_iff {v : Value} : ofValue v = .ok t ↔
    ∃ fields l vs as, v = .dict fields ∧ Value.named? "mainType" fields = some (.str l) ∧ l ≠ "" ∧
      documentArgs? fields = some vs ∧ vs.mapM ofValue = .ok as ∧ (l = wildcard → as = []) ∧
      .node l as = t := by
  cases v with
  | dict fields =>
    rw [ofValue]
    constructor
    · intro h
      cases hl : documentLabel fields with
      | error f => simp [hl, bind, Except.bind] at h
      | ok l =>
        cases has : argsOfFields l fields with
        | error f => simp [hl, has, bind, Except.bind] at h
        | ok as =>
          simp only [hl, has, ok_bind] at h
          obtain ⟨hlabel, hne⟩ := documentLabel_eq_ok_iff.mp hl
          obtain ⟨vs, hvs, hread⟩ := argsOfFields_eq_ok_iff.mp has
          obtain ⟨hwild, rfl⟩ := make_eq_ok_iff.mp h
          exact ⟨fields, l, vs, as, rfl, hlabel, hne, hvs, hread, hwild, rfl⟩
    · rintro ⟨_, l, vs, as, hv, hlabel, hne, hvs, hread, hwild, rfl⟩
      obtain rfl := Value.dict.inj hv
      rw [documentLabel_eq_ok_iff.mpr ⟨hlabel, hne⟩, ok_bind,
        argsOfFields_eq_ok_iff.mpr ⟨vs, hvs, hread⟩, ok_bind, make_eq_ok_iff]
      exact ⟨hwild, rfl⟩
  | null | bool _ | int _ | float _ | str _ | list _ | tuple _ => simp [ofValue]

theorem proper_of_ofValue {v : Value} (h : ofValue v = .ok t) : Proper t := by
  induction t using args_induction generalizing v with
  | node l as ih =>
    obtain ⟨_, k, vs, _, -, -, -, -, hread, hwild, hnode⟩ := ofValue_eq_ok_iff.mp h
    obtain ⟨rfl, rfl⟩ := TypeTree.node.inj hnode
    refine proper_node.mpr ⟨hwild, fun a ha => ?_⟩
    obtain ⟨x, -, hx⟩ := exists_item_of_mapM hread ha
    exact ih a ha hx

theorem ofValue_toValue (t : TypeTree) (hproper : Proper t) (hnamed : ∀ l ∈ labels t, l ≠ "") :
    ofValue (toValue t) = .ok t := by
  induction t using args_induction with
  | node l as ih =>
    obtain ⟨hstar, hargs⟩ := proper_node.mp hproper
    have hread : (as.map toValue).mapM ofValue = .ok (as.map id) :=
      mapM_map_eq_ok fun a ha => ih a ha (hargs a ha) fun k hk =>
        hnamed k (mem_labels.mpr (.inr ⟨a, ha, hk⟩))
    rw [List.map_id] at hread
    rw [toValue, toValues_eq_map, ofValue_eq_ok_iff]
    exact ⟨_, l, as.map toValue, as, rfl, rfl, hnamed l (mem_labels.mpr (.inl rfl)), rfl, hread,
      hstar, rfl⟩

/-! ### Documents that are read -/

/-- A dictionary with a label that is not empty, whose arguments are missing or a list of such
dictionaries.  Whether the label may have arguments is not asked. -/
inductive Acceptable : Value → Prop
  | dict {fields : List (Value × Value)} {l : String} {vs : List Value}
      (label : Value.named? "mainType" fields = some (.str l)) (named : l ≠ "")
      (args : documentArgs? fields = some vs) (items : ∀ v ∈ vs, Acceptable v) :
      Acceptable (.dict fields)

/-- The value itself, or one that an argument is read from, at any level. -/
inductive Within (w : Value) : Value → Prop
  | self : Within w w
  | arg {fields : List (Value × Value)} {vs : List Value} {v : Value}
      (args : documentArgs? fields = some vs) (mem : v ∈ vs) (inner : Within w v) :
      Within w (.dict fields)

def AppliedWildcard (v : Value) : Prop :=
  ∃ fields vs, v = .dict fields ∧ Value.named? "mainType" fields = some (.str wildcard) ∧
    documentArgs? fields = some vs ∧ vs ≠ []

theorem acceptable_of_ofValue {v : Value} (h : ofValue v = .ok t) :
    Acceptable v ∧ ∀ w, Within w v → ¬AppliedWildcard w := by
  induction t using args_induction generalizing v with
  | node l as ih =>
    obtain ⟨fields, l, vs, as, rfl, hlabel, hne, hvs, hread, hwild, hnode⟩ :=
      ofValue_eq_ok_iff.mp h
    obtain ⟨rfl, rfl⟩ := TypeTree.node.inj hnode
    have hitems : ∀ v ∈ vs, Acceptable v ∧ ∀ w, Within w v → ¬AppliedWildcard w := by
      intro v hv
      obtain ⟨a, ha, hok⟩ := exists_ok_of_mapM hread hv
      exact ih a ha hok
    refine ⟨.dict hlabel hne hvs fun v hv => (hitems v hv).1, fun w hw => ?_⟩
    cases hw with
    | self =>
      rintro ⟨_, vs', hfields, hstar, hvs', hnonempty⟩
      obtain rfl := Value.dict.inj hfields
      obtain rfl := Option.some.inj (hvs.symm.trans hvs')
      obtain rfl := Value.str.inj (Option.some.inj (hlabel.symm.trans hstar))
      have hlength := (mapM_eq_ok_iff.mp hread).length_eq
      rw [hwild rfl, List.length_nil, List.length_eq_zero_iff] at hlength
      exact hnonempty hlength
    | arg hvs' hv hinner =>
      obtain rfl := Option.some.inj (hvs.symm.trans hvs')
      exact (hitems _ hv).2 w hinner

theorem exists_ofValue {v : Value} (h : Acceptable v)
    (hwild : ∀ w, Within w v → ¬AppliedWildcard w) : ∃ t, ofValue v = .ok t := by
  induction h with
  | @dict fields l vs hlabel hne hvs _ ih =>
    obtain ⟨as, hread⟩ := exists_mapM_ok fun v hv => ih v hv fun w hw => hwild w (.arg hvs hv hw)
    refine ⟨.node l as, ofValue_eq_ok_iff.mpr
      ⟨fields, l, vs, as, rfl, hlabel, hne, hvs, hread, fun hl => ?_, rfl⟩⟩
    -- Without values to read there are no arguments, and with some the wildcard would be applied.
    by_cases hnil : vs = []
    · subst hnil
      exact List.forall₂_nil_left_iff.mp (mapM_eq_ok_iff.mp hread)
    · exact absurd ⟨fields, vs, rfl, hl ▸ hlabel, hvs, hnil⟩ (hwild _ .self)

/-! ### What is written again -/

mutual

/-- A document without the fields that do not count, at every level; where there are no arguments,
an empty list stands for them.  The two fields that are left come in the order in which they are
written down, since dictionaries are equal whatever the order of their fields. -/
def pruned : Value → Value
  | .dict fields =>
    .record [("mainType", (Value.named? "mainType" fields).getD .null),
      ("genericTypes", .list (prunedArgs fields))]
  | v => v

def prunedArgs : List (Value × Value) → List Value
  | [] => []
  | (k, v) :: rest =>
    if Value.sameKey k (.str "genericTypes") then prunedItems v else prunedArgs rest

def prunedItems : Value → List Value
  | .list vs => prunedAll vs
  | .tuple vs => prunedAll vs
  | _ => []

def prunedAll : List Value → List Value
  | [] => []
  | v :: vs => pruned v :: prunedAll vs

end

theorem prunedAll_eq_map (vs : List Value) : prunedAll vs = vs.map pruned := by
  induction vs with
  | nil => rfl
  | cons v vs ih => rw [prunedAll, List.map_cons, ih]

theorem prunedArgs_eq_map {vs : List Value} (h : documentArgs? fields = some vs) :
    prunedArgs fields = vs.map pruned := by
  induction fields with
  | nil =>
    obtain rfl : [] = vs := Option.some.inj h
    rfl
  | cons field rest ih =>
    obtain ⟨k, v⟩ := field
    by_cases hk : Value.sameKey k (.str "genericTypes") = true
    · rw [documentArgs?_cons_of_key v rest hk] at h
      rw [prunedArgs, if_pos hk]
      cases v <;> simp_all [sequence?, prunedItems, prunedAll_eq_map]
    · rw [documentArgs?_cons_of_not_key v rest hk] at h
      rw [prunedArgs, if_neg hk, ih h]

theorem toValue_of_ofValue {v : Value} (h : ofValue v = .ok t) : toValue t = pruned v := by
  induction t using args_induction generalizing v with
  | node l as ih =>
    obtain ⟨fields, l, vs, as, rfl, hlabel, -, hvs, hread, -, hnode⟩ := ofValue_eq_ok_iff.mp h
    obtain ⟨rfl, rfl⟩ := TypeTree.node.inj hnode
    have hargs : ∀ {xs : List Value} {ts : List TypeTree},
        List.Forall₂ (fun x a => ofValue x = .ok a) xs ts → (∀ a ∈ ts, a ∈ as) →
        ts.map toValue = xs.map pruned := by
      intro xs ts hall
      induction hall with
      | nil => exact fun _ => rfl
      | cons hok _ ihall =>
        intro hmem
        rw [List.map_cons, List.map_cons, ih _ (hmem _ List.mem_cons_self) hok,
          ihall fun a ha => hmem a (List.mem_cons_of_mem _ ha)]
    rw [toValue, pruned, hlabel, Option.getD_some, prunedArgs_eq_map hvs, toValues_eq_map,
      hargs (mapM_eq_ok_iff.mp hread) fun a ha => ha]

/-- A value is read exactly if it has the form of a document and no wildcard in it has arguments;
what is read is written down as it was, without what does not count; and a type that is written down
is read back. -/
theorem ofValue_decodes_exactly :
    (∀ v, (∃ t, ofValue v = .ok t) ↔
      Acceptable v ∧ ∀ w, Within w v → ¬AppliedWildcard w) ∧
    (∀ v, ¬(Acceptable v ∧ ∀ w, Within w v → ¬AppliedWildcard w) →
      ∃ e, ofValue v = .error e ∧ (Fault.shape e).kind = .invalid) ∧
    (∀ v t, ofValue v = .ok t → toValue t = pruned v) ∧
    ∀ t : TypeTree, t.Proper → (∀ l ∈ labels t, l ≠ "") → ofValue (toValue t) = .ok t := by
  have hiff : ∀ v, (∃ t, ofValue v = .ok t) ↔
      Acceptable v ∧ ∀ w, Within w v → ¬AppliedWildcard w := fun v =>
    ⟨fun ⟨_, h⟩ => acceptable_of_ofValue h, fun h => exists_ofValue h.1 h.2⟩
  refine ⟨hiff, fun v hv => ?_, fun v t => toValue_of_ofValue, ofValue_toValue⟩
  cases h : ofValue v with
  | ok t => exact absurd ((hiff v).mp ⟨t, h⟩) hv
  | error e => exact ⟨e, rfl, rfl⟩

/-- A field that does not count, the label behind the arguments, and an argument without a list. -/
theorem ofValue_decodes_exactly_pair :
    let v : Value := .record [("note", .int 1), ("genericTypes", .list
      [.record [("mainType", .str "int")], .record [("genericTypes", .list []),
        ("mainType", .str "*")]]), ("mainType", .str "pair")]
    let t : TypeTree := .node "pair" [leaf "int", leaf "*"]
    ofValue v = .ok t ∧ (Acceptable v ∧ ∀ w, Within w v → ¬AppliedWildcard w) ∧
    toValue t = pruned v ∧ ofValue (toValue t) = .ok t := by
  intro v t
  obtain ⟨haccept, -, hwritten, hback⟩ := ofValue_decodes_exactly
  have hread : ofValue v = .ok t := by decide +kernel
  exact ⟨hread, (haccept v).mp ⟨t, hread⟩, hwritten v t hread,
    hback t (proper_of_ofValue hread) (by decide +kernel)⟩

end TypeTree
end Patchbay
