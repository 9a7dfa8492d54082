import Patchbay.Table

/-!
Tables as finite maps.  Every operation is described by what `get?` finds after it; later modules
use these equations and do not look at the list of entries.
-/

namespace Patchbay
namespace Table

universe u v

variable {α : Type u}

/-! ### Look-up -/

theorem lookup_cons_eq_ite (k j : String) (y : α) (l : List (String × α)) :
    List.lookup k ((j, y) :: l) = if k = j then some y else l.lookup k := by
  by_cases h : k = j
  · rw [if_pos h, h, List.lookup_cons_self]
  · have hb : (k == j) = false := beq_eq_false_iff_ne.mpr h
    rw [if_neg h, List.lookup_cons, hb]

theorem lookup_put (k j : String) (x : α) (l : List (String × α)) :
    (put k x l).lookup j = if j = k then some x else l.lookup j := by
  induction l with
  | nil => rw [put, lookup_cons_eq_ite]
  | cons e rest ih =>
    obtain ⟨i, y⟩ := e
    by_cases hi : i = k
    · subst hi
      rw [put, if_pos rfl, lookup_cons_eq_ite, lookup_cons_eq_ite]
      by_cases h : j = i <;> simp [h]
    · rw [put, if_neg hi, lookup_cons_eq_ite, lookup_cons_eq_ite, ih]
      by_cases h : j = i
      · subst h
        simp [hi]
      · simp [h]

@[simp] theorem get?_empty (k : String) : (∅ : Table α).get? k = none := rfl

theorem get?_insert (t : Table α) (k j : String) (x : α) :
    (t.insert k x).get? j = if j = k then some x else t.get? j := lookup_put k j x t.entries

theorem get?_insert_self (t : Table α) (k : String) (x : α) : (t.insert k x).get? k = some x := by
  rw [get?_insert, if_pos rfl]

theorem get?_insert_of_ne (t : Table α) {k j : String} (h : j ≠ k) (x : α) :
    (t.insert k x).get? j = t.get? j := by
  rw [get?_insert, if_neg h]

theorem contains_iff {t : Table α} {k : String} :
    t.contains k = true ↔ ∃ x, t.get? k = some x := by
  rw [contains, Option.isSome_iff_exists]

theorem contains_eq_false_iff {t : Table α} {k : String} :
    t.contains k = false ↔ t.get? k = none := by
  rw [contains, Option.isSome_eq_false_iff, Option.isNone_iff_eq_none]

theorem lookup_eq_some_iff {l : List (String × α)} (h : (l.map Prod.fst).Nodup) {k : String}
    {x : α} : l.lookup k = some x ↔ (k, x) ∈ l := by
  induction l with
  | nil => simp
  | cons e rest ih =>
    obtain ⟨j, y⟩ := e
    rw [List.map_cons, List.nodup_cons] at h
    rw [lookup_cons_eq_ite, List.mem_cons]
    by_cases hk : k = j
    · subst hk
      have absent : (k, x) ∉ rest := fun hm => h.1 (List.mem_map.mpr ⟨(k, x), hm, rfl⟩)
      simp [absent, eq_comm]
    · simp [hk, ih h.2]

theorem lookup_eq_none_of_notMem {l : List (String × α)} {k : String}
    (h : k ∉ l.map Prod.fst) : l.lookup k = none := by
  rw [List.lookup_eq_none_iff]
  intro e he
  rw [bne_iff_ne]
  rintro rfl
  exact h (List.mem_map_of_mem he)

theorem get?_eq_some_iff {t : Table α} {k : String} {x : α} :
    t.get? k = some x ↔ (k, x) ∈ t.entries := lookup_eq_some_iff t.distinct

theorem mem_keys_iff {t : Table α} {k : String} : k ∈ t.keys ↔ ∃ x, t.get? k = some x := by
  rw [keys, List.mem_map]
  constructor
  · rintro ⟨⟨j, x⟩, hm, rfl⟩
    exact ⟨x, get?_eq_some_iff.mpr hm⟩
  · rintro ⟨x, hx⟩
    exact ⟨(k, x), get?_eq_some_iff.mp hx, rfl⟩

theorem get?_eq_none_iff {t : Table α} {k : String} : t.get? k = none ↔ k ∉ t.keys := by
  rw [mem_keys_iff, ← Option.isSome_iff_exists, Option.not_isSome_iff_eq_none]

theorem mem_keys_insert {t : Table α} {k j : String} {x : α} :
    j ∈ (t.insert k x).keys ↔ j = k ∨ j ∈ t.keys := by
  rw [mem_keys_iff, mem_keys_iff, get?_insert]
  by_cases h : j = k <;> simp [h]

theorem keys_insert_of_get? {t : Table α} {k : String} {y : α} (h : t.get? k = some y) (x : α) :
    (t.insert k x).keys = t.keys := by
  have hk : k ∈ t.entries.map Prod.fst := mem_keys_iff.mpr ⟨y, h⟩
  rw [keys, insert, keys_put, if_pos hk, keys]

theorem put_comm {l : List (String × α)} {k j : String} (hne : k ≠ j) (x y : α)
    (hk : k ∈ l.map Prod.fst) : put j y (put k x l) = put k x (put j y l) := by
  induction l with
  | nil => cases hk
  | cons e rest ih =>
    obtain ⟨i, z⟩ := e
    by_cases hik : i = k
    · subst hik
      simp [put, hne]
    · have hrest : k ∈ rest.map Prod.fst := by simpa [Ne.symm hik] using hk
      by_cases hij : i = j
      · simp [put, hij, Ne.symm hne]
      · simp [put, hik, hij, ih hrest]

/-- The order of two names counts only where both are new. -/
theorem insert_comm {t : Table α} {k j : String} (hne : k ≠ j) {z : α} (hk : t.get? k = some z)
    (x y : α) : (t.insert k x).insert j y = (t.insert j y).insert k x :=
  ext (put_comm hne x y (mem_keys_iff.mpr ⟨z, hk⟩))

theorem put_put (k : String) (x y : α) (l : List (String × α)) :
    put k y (put k x l) = put k y l := by
  induction l with
  | nil => simp [put]
  | cons e rest ih =>
    obtain ⟨j, z⟩ := e
    by_cases hj : j = k
    · simp [put, hj]
    · simp [put, hj, ih]

theorem insert_insert (t : Table α) (k : String) (x y : α) :
    (t.insert k x).insert k y = t.insert k y := ext (put_put k x y t.entries)

/-! ### Erasing -/

theorem get?_erase_of_ne (t : Table α) {k j : String} (h : j ≠ k) :
    (t.erase k).get? j = t.get? j := by
  refine Option.ext fun x => ?_
  rw [get?_eq_some_iff, get?_eq_some_iff]
  simp [erase, filterKeys, List.mem_filter, h]

theorem get?_eq_some_of_erase {t : Table α} {k j : String} {x : α}
    (h : (t.erase k).get? j = some x) : t.get? j = some x := by
  rw [get?_eq_some_iff] at h ⊢
  exact (List.mem_filter.mp h).1

/-! ### Entering many -/

theorem put_of_mem {l : List (String × α)} (hl : (l.map Prod.fst).Nodup) {k : String} {x : α}
    (h : (k, x) ∈ l) : put k x l = l := by
  induction l with
  | nil => simp at h
  | cons e rest ih =>
    obtain ⟨j, y⟩ := e
    rw [List.map_cons, List.nodup_cons] at hl
    by_cases hj : j = k
    · subst hj
      have absent : (j, x) ∉ rest := fun hm => hl.1 (List.mem_map.mpr ⟨(j, x), hm, rfl⟩)
      have hxy : x = y := by simpa [absent] using h
      rw [put, if_pos rfl, hxy]
    · have hm : (k, x) ∈ rest := by simpa [Ne.symm hj] using h
      rw [put, if_neg hj, ih hl.2 hm]

/-- Entering what is there already changes nothing. -/
theorem insert_eq_self {t : Table α} {k : String} {x : α} (h : t.get? k = some x) :
    t.insert k x = t :=
  ext (put_of_mem t.distinct (get?_eq_some_iff.mp h))

theorem put_of_notMem {l : List (String × α)} {k : String} (x : α) (h : k ∉ l.map Prod.fst) :
    put k x l = l ++ [(k, x)] := by
  induction l with
  | nil => rfl
  | cons e rest ih =>
    obtain ⟨j, y⟩ := e
    rw [List.map_cons, List.mem_cons, not_or] at h
    rw [put, if_neg (Ne.symm h.1), ih h.2, List.cons_append]

/-- Entries of new names go to the end, in their order. -/
theorem entries_foldl_insert (l : List (String × α)) (t : Table α)
    (h : ((t.entries ++ l).map Prod.fst).Nodup) :
    (l.foldl (fun r e => r.insert e.1 e.2) t).entries = t.entries ++ l := by
  induction l generalizing t with
  | nil => simp
  | cons e rest ih =>
    have absent : e.1 ∉ t.entries.map Prod.fst := by
      rw [List.map_append, List.nodup_append] at h
      exact fun hm => h.2.2 e.1 hm e.1 (by simp) rfl
    have step : (t.insert e.1 e.2).entries = t.entries ++ [e] := put_of_notMem e.2 absent
    have h' : (((t.insert e.1 e.2).entries ++ rest).map Prod.fst).Nodup := by
      rw [step, List.append_assoc]
      exact h
    rw [List.foldl_cons, ih _ h', step, List.append_assoc]
    rfl

theorem ofList_entries (t : Table α) : ofList t.entries = t :=
  ext (entries_foldl_insert t.entries empty t.distinct)

theorem empty_union (t : Table α) : (∅ : Table α).union t = t := ofList_entries t

theorem get?_foldl_insert (l : List (String × α)) (hl : (l.map Prod.fst).Nodup) (t : Table α)
    (k : String) :
    (l.foldl (fun r e => r.insert e.1 e.2) t).get? k = (l.lookup k).or (t.get? k) := by
  induction l generalizing t with
  | nil => rfl
  | cons e rest ih =>
    obtain ⟨j, y⟩ := e
    rw [List.map_cons, List.nodup_cons] at hl
    rw [List.foldl_cons, ih hl.2, get?_insert, lookup_cons_eq_ite]
    by_cases hk : k = j
    · subst hk
      simp [lookup_eq_none_of_notMem hl.1]
    · simp [hk]

theorem mem_put {k : String} {x : α} {l : List (String × α)} {e : String × α}
    (h : e ∈ put k x l) : e = (k, x) ∨ e ∈ l := by
  induction l with
  | nil => exact .inl (by simpa [put] using h)
  | cons i rest ih =>
    obtain ⟨j, y⟩ := i
    by_cases hj : j = k
    · rw [put, if_pos hj, hj, List.mem_cons] at h
      exact h.imp_right (List.mem_cons_of_mem _)
    · rw [put, if_neg hj, List.mem_cons] at h
      rcases h with rfl | h
      · exact .inr List.mem_cons_self
      · exact (ih h).imp_right (List.mem_cons_of_mem _)

theorem mem_ofList {l : List (String × α)} {e : String × α} (h : e ∈ (ofList l).entries) :
    e ∈ l := by
  have hfold : ∀ (l : List (String × α)) (t : Table α),
      e ∈ (l.foldl (fun r e => r.insert e.1 e.2) t).entries → e ∈ t.entries ∨ e ∈ l := by
    intro l
    induction l with
    | nil => exact fun t h => .inl h
    | cons i rest ih =>
      intro t h
      rcases ih _ h with hput | hrest
      · rcases mem_put hput with rfl | ht
        · exact .inr List.mem_cons_self
        · exact .inl ht
      · exact .inr (List.mem_cons_of_mem _ hrest)
  rcases hfold l empty h with hempty | hl
  · cases hempty
  · exact hl

theorem mem_keys_ofList {l : List (String × α)} {k : String} :
    k ∈ (ofList l).keys ↔ k ∈ l.map Prod.fst := by
  have hfold : ∀ (l : List (String × α)) (t : Table α),
      k ∈ (l.foldl (fun r e => r.insert e.1 e.2) t).keys ↔ k ∈ t.keys ∨ k ∈ l.map Prod.fst := by
    intro l
    induction l with
    | nil => simp
    | cons e rest ih =>
      intro t
      rw [List.foldl_cons, ih, mem_keys_insert, List.map_cons, List.mem_cons, or_assoc,
        or_left_comm]
  rw [ofList, hfold]
  simp [keys, empty]

/-- The values of the second table win. -/
theorem get?_union (t s : Table α) (k : String) :
    (t.union s).get? k = (s.get? k).or (t.get? k) :=
  get?_foldl_insert s.entries s.distinct t k

theorem keys_map {β : Type v} (f : α → β) (t : Table α) : (t.map f).keys = t.keys := by
  simp [map, keys, Function.comp_def]

theorem get?_map {β : Type v} (f : α → β) (t : Table α) (k : String) :
    (t.map f).get? k = (t.get? k).map f := by
  have hlookup : ∀ l : List (String × α),
      (l.map fun e => (e.1, f e.2)).lookup k = (l.lookup k).map f := by
    intro l
    induction l with
    | nil => rfl
    | cons e rest ih =>
      rw [List.map_cons, lookup_cons_eq_ite, ih, lookup_cons_eq_ite]
      split <;> rfl
  exact hlookup t.entries

end Table
end Patchbay
