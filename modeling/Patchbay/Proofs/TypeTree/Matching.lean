import Patchbay.Proofs.Table
import Patchbay.TypeTree.Binding

/-!
Resolution is matching.  `instantiate` says what a choice of types for the parameters makes of a
type, without a table and without an order of visits.  The theorem this file exists for is
`resolve_finds_the_solution`: `resolve` succeeds exactly if some choice makes the first type equal
to the second, and then its table is the part of every such choice that the first type depends on.

Both directions run through `fits_extend`: the choices that agree with the table after a visit are
those that agreed with it before and solve what was visited.
-/

namespace Patchbay
namespace TypeTree

/-! ### Labels -/

mutual

/-- The labels of a tree, each node before its arguments. -/
def labels : TypeTree → List String
  | .node l as => l :: labelsAll as

def labelsAll : List TypeTree → List String
  | [] => []
  | a :: as => labels a ++ labelsAll as

end

mutual

/-- The labels of those nodes that have arguments. -/
def appliedLabels : TypeTree → List String
  | .node l as => (if as.isEmpty then [] else [l]) ++ appliedLabelsAll as

def appliedLabelsAll : List TypeTree → List String
  | [] => []
  | a :: as => appliedLabels a ++ appliedLabelsAll as

end

/-! ### Choices of types for parameters -/

mutual

/-- What a choice `σ` of types for the parameters makes of a type.  A parameter without arguments
becomes the chosen type; one with arguments needs a chosen type that is a mere label, and lends it
its arguments.  What `σ` says of other names does not count. -/
def instantiate (params : List String) (σ : String → TypeTree) : TypeTree → Option TypeTree
  | .node l as =>
    if params.contains l then
      if as.isEmpty then some (σ l)
      else if (σ l).isLeaf then (instantiateAll params σ as).map (.node (σ l).label)
      else none
    else (instantiateAll params σ as).map (.node l)

def instantiateAll (params : List String) (σ : String → TypeTree) :
    List TypeTree → Option (List TypeTree)
  | [] => some []
  | a :: as =>
    match instantiate params σ a, instantiateAll params σ as with
    | some t, some ts => some (t :: ts)
    | _, _ => none

end

variable {params : List String} {σ : String → TypeTree}

theorem instantiate_eq_some_iff {l : String} {as : List TypeTree} {c : TypeTree} :
    instantiate params σ (.node l as) = some c ↔
      (l ∈ params ∧ as = [] ∧ σ l = c) ∨
      (l ∈ params ∧ as ≠ [] ∧ ∃ m ts, σ l = leaf m ∧ instantiateAll params σ as = some ts ∧
        .node m ts = c) ∨
      (l ∉ params ∧ ∃ ts, instantiateAll params σ as = some ts ∧ .node l ts = c) := by
  by_cases hl : l ∈ params
  · cases as with
    | nil => simp [instantiate, hl]
    | cons a as =>
      obtain ⟨m, ms, hm⟩ : ∃ m ms, σ l = .node m ms := by
        cases σ l with
        | node m ms => exact ⟨m, ms, rfl⟩
      cases ms with
      | nil => simp [instantiate, hl, hm, isLeaf, args, label, leaf]
      | cons k ks => simp [instantiate, hl, hm, isLeaf, args, leaf]
  · simp [instantiate, hl]

theorem instantiateAll_cons_eq_some_iff {a : TypeTree} {as ts : List TypeTree} :
    instantiateAll params σ (a :: as) = some ts ↔
      ∃ t rest, instantiate params σ a = some t ∧ instantiateAll params σ as = some rest ∧
        ts = t :: rest := by
  rw [instantiateAll]
  cases instantiate params σ a <;> cases instantiateAll params σ as <;> simp [eq_comm]

theorem length_of_instantiateAll {as : List TypeTree} : ∀ {ts : List TypeTree},
    instantiateAll params σ as = some ts → as.length = ts.length := by
  induction as with
  | nil =>
    intro ts h
    simp only [instantiateAll, Option.some.injEq] at h
    rw [← h]
  | cons a as ih =>
    intro ts h
    obtain ⟨t, rest, -, hrest, rfl⟩ := instantiateAll_cons_eq_some_iff.mp h
    rw [List.length_cons, List.length_cons, ih hrest]

/-! ### One visit -/

/-- A choice agrees with all that a table has bound. -/
def Fits (σ : String → TypeTree) (b : Bindings) : Prop := ∀ p t, b.get? p = some t → σ p = t

theorem fits_empty (σ : String → TypeTree) : Fits σ ∅ := fun p t h => by simp at h

theorem bindParameter_eq_ok_iff {p : String} {t : TypeTree} {b b' : Bindings} :
    bindParameter p t b = .ok b' ↔ (∀ u, b.get? p = some u → u = t) ∧ b' = b.insert p t := by
  unfold bindParameter
  cases h : b.get? p with
  | none => simp [eq_comm]
  | some u =>
    by_cases hu : u = t
    · simp [hu, equal_refl, @eq_comm _ b']
    · have hne : equal u t = false := by
        rw [Bool.eq_false_iff, ne_eq, equal_iff]
        exact hu
      simp [hu, hne]

theorem fits_bindParameter {p : String} {t : TypeTree} {b b' : Bindings}
    (h : bindParameter p t b = .ok b') : Fits σ b' ↔ σ p = t ∧ Fits σ b := by
  obtain ⟨hbound, rfl⟩ := bindParameter_eq_ok_iff.mp h
  constructor
  · intro hfit
    refine ⟨hfit p t (Table.get?_insert_self b p t), fun q u hq => ?_⟩
    by_cases hqp : q = p
    · subst hqp
      rw [hbound u hq]
      exact hfit q t (Table.get?_insert_self b q t)
    · exact hfit q u (by rw [Table.get?_insert_of_ne b hqp, hq])
  · rintro ⟨hp, hfit⟩ q u hq
    rw [Table.get?_insert] at hq
    by_cases hqp : q = p
    · rw [if_pos hqp, Option.some.injEq] at hq
      rw [hqp, hp, hq]
    · rw [if_neg hqp] at hq
      exact hfit q u hq

theorem exists_bindParameter {p : String} {b : Bindings} (h : Fits σ b) :
    ∃ b', bindParameter p (σ p) b = .ok b' :=
  ⟨_, bindParameter_eq_ok_iff.mpr ⟨fun u hu => (h p u hu).symm, rfl⟩⟩

theorem mem_keys_bindParameter {p q : String} {t : TypeTree} {b b' : Bindings}
    (h : bindParameter p t b = .ok b') : q ∈ b'.keys ↔ q ∈ b.keys ∨ q = p := by
  obtain ⟨-, rfl⟩ := bindParameter_eq_ok_iff.mp h
  rw [Table.mem_keys_iff, Table.mem_keys_iff, Table.get?_insert]
  by_cases hq : q = p <;> simp [hq]

theorem get?_bindParameter {p q : String} {t x : TypeTree} {b b' : Bindings}
    (h : bindParameter p t b = .ok b') (hq : b'.get? q = some x) : b.get? q = some x ∨ x = t := by
  obtain ⟨-, rfl⟩ := bindParameter_eq_ok_iff.mp h
  rw [Table.get?_insert] at hq
  split at hq
  · injection hq with hq
    exact .inr hq.symm
  · exact .inl hq

/-- The three ways in which a node can be resolved. -/
theorem extend_eq_ok_iff {l m : String} {as bs : List TypeTree} {b b' : Bindings} :
    extend params (.node l as) (.node m bs) b = .ok b' ↔
      (l ∈ params ∧ as = [] ∧ bindParameter l (.node m bs) b = .ok b') ∨
      (l ∈ params ∧ as ≠ [] ∧ as.length = bs.length ∧
        ∃ b₁, bindParameter l (leaf m) b = .ok b₁ ∧ extendAll params as bs b₁ = .ok b') ∨
      (l ∉ params ∧ l = m ∧ as.length = bs.length ∧ extendAll params as bs b = .ok b') := by
  by_cases hl : l ∈ params
  · cases as with
    | nil => simp [extend, hl]
    | cons a as =>
      by_cases hlen : as.length + 1 = bs.length
      · cases hbind : bindParameter l (leaf m) b with
        | error o => simp [extend, hl, hlen, hbind]
        | ok b₁ => simp [extend, hl, hlen, hbind]
      · simp [extend, hl, hlen]
  · by_cases hm : l = m
    · subst hm
      by_cases hlen : as.length = bs.length <;> simp [extend, hl, hlen]
    · simp [extend, hl, hm]

theorem extendAll_cons_eq_ok_iff {a t : TypeTree} {as ts : List TypeTree} {b b' : Bindings} :
    extendAll params (a :: as) (t :: ts) b = .ok b' ↔
      ∃ b₁, extend params a t b = .ok b₁ ∧ extendAll params as ts b₁ = .ok b' := by
  rw [extendAll]
  cases extend params a t b <;> simp

/-! ### Whole types -/

mutual

/-- A table is extended by exactly what the visited type asks of a choice. -/
theorem fits_extend : ∀ {u c : TypeTree} {b b' : Bindings}, extend params u c b = .ok b' →
    (Fits σ b' ↔ instantiate params σ u = some c ∧ Fits σ b)
  | .node l as, .node m bs, b, b', h => by
    rw [instantiate_eq_some_iff]
    rcases extend_eq_ok_iff.mp h with ⟨hl, rfl, hbind⟩ | ⟨hl, has, hlen, b₁, hbind, hargs⟩ |
      ⟨hl, rfl, hlen, hargs⟩
    · rw [fits_bindParameter hbind]
      simp [hl]
    · rw [fits_extendAll hlen hargs, fits_bindParameter hbind]
      constructor
      · rintro ⟨hts, hm, hfit⟩
        exact ⟨.inr (.inl ⟨hl, has, m, bs, hm, hts, rfl⟩), hfit⟩
      · rintro ⟨⟨-, hnil, -⟩ | ⟨-, -, m', ts, hm, hts, hc⟩ | ⟨hl', -⟩, hfit⟩
        · exact absurd hnil has
        · obtain ⟨rfl, rfl⟩ := TypeTree.node.inj hc
          exact ⟨hts, hm, hfit⟩
        · exact absurd hl hl'
    · rw [fits_extendAll hlen hargs]
      simp [hl]

theorem fits_extendAll : ∀ {as ts : List TypeTree} {b b' : Bindings}, as.length = ts.length →
    extendAll params as ts b = .ok b' →
    (Fits σ b' ↔ instantiateAll params σ as = some ts ∧ Fits σ b)
  | [], [], b, b', _, h => by
    simp only [extendAll, Except.ok.injEq] at h
    simp [instantiateAll, h]
  | a :: as, t :: ts, b, b', hlen, h => by
    obtain ⟨b₁, hhead, hrest⟩ := extendAll_cons_eq_ok_iff.mp h
    have hlen' : as.length = ts.length := by simpa using hlen
    rw [fits_extendAll hlen' hrest, fits_extend hhead, instantiateAll_cons_eq_some_iff]
    constructor
    · rintro ⟨hts, ht, hfit⟩
      exact ⟨⟨t, ts, ht, hts, rfl⟩, hfit⟩
    · rintro ⟨⟨t', ts', ht, hts, hc⟩, hfit⟩
      obtain ⟨rfl, rfl⟩ := List.cons.inj hc
      exact ⟨hts, ht, hfit⟩
  | [], _ :: _, _, _, hlen, _ => by simp at hlen
  | _ :: _, [], _, _, hlen, _ => by simp at hlen

end

mutual

/-- Where a choice solves the type and agrees with the table, nothing stands in the way. -/
theorem exists_extend : ∀ {u c : TypeTree} {b : Bindings}, instantiate params σ u = some c →
    Fits σ b → ∃ b', extend params u c b = .ok b'
  | .node l as, .node m bs, b, h, hfit => by
    rcases instantiate_eq_some_iff.mp h with ⟨hl, rfl, hσ⟩ | ⟨hl, has, m', ts, hσ, hts, hc⟩ |
      ⟨hl, ts, hts, hc⟩
    · obtain ⟨b', hbind⟩ := exists_bindParameter (p := l) hfit
      rw [hσ] at hbind
      exact ⟨b', extend_eq_ok_iff.mpr (.inl ⟨hl, rfl, hbind⟩)⟩
    · obtain ⟨rfl, rfl⟩ := TypeTree.node.inj hc
      obtain ⟨b₁, hbind⟩ := exists_bindParameter (p := l) hfit
      rw [hσ] at hbind
      have hfit₁ : Fits σ b₁ := (fits_bindParameter hbind).mpr ⟨hσ, hfit⟩
      obtain ⟨b', hargs⟩ := exists_extendAll hts hfit₁
      exact ⟨b', extend_eq_ok_iff.mpr
        (.inr (.inl ⟨hl, has, length_of_instantiateAll hts, b₁, hbind, hargs⟩))⟩
    · obtain ⟨rfl, rfl⟩ := TypeTree.node.inj hc
      obtain ⟨b', hargs⟩ := exists_extendAll hts hfit
      exact ⟨b', extend_eq_ok_iff.mpr
        (.inr (.inr ⟨hl, rfl, length_of_instantiateAll hts, hargs⟩))⟩

theorem exists_extendAll : ∀ {as ts : List TypeTree} {b : Bindings},
    instantiateAll params σ as = some ts → Fits σ b → ∃ b', extendAll params as ts b = .ok b'
  | [], ts, b, _, _ => ⟨b, by simp [extendAll]⟩
  | a :: as, ts, b, h, hfit => by
    obtain ⟨t, rest, ht, hrest, rfl⟩ := instantiateAll_cons_eq_some_iff.mp h
    obtain ⟨b₁, hhead⟩ := exists_extend ht hfit
    have hfit₁ : Fits σ b₁ := (fits_extend hhead).mpr ⟨ht, hfit⟩
    obtain ⟨b', htail⟩ := exists_extendAll hrest hfit₁
    exact ⟨b', extendAll_cons_eq_ok_iff.mpr ⟨b₁, hhead, htail⟩⟩

end

mutual

/-- The names that a visit binds are the parameters among the labels. -/
theorem mem_keys_extend {q : String} : ∀ {u c : TypeTree} {b b' : Bindings},
    extend params u c b = .ok b' → (q ∈ b'.keys ↔ q ∈ b.keys ∨ q ∈ params ∧ q ∈ labels u)
  | .node l as, .node m bs, b, b', h => by
    rw [labels, List.mem_cons]
    rcases extend_eq_ok_iff.mp h with ⟨hl, rfl, hbind⟩ | ⟨hl, has, hlen, b₁, hbind, hargs⟩ |
      ⟨hl, rfl, hlen, hargs⟩
    · rw [mem_keys_bindParameter hbind]
      have hq : q = l → q ∈ params := fun e => e ▸ hl
      simp only [labelsAll, List.not_mem_nil, or_false]
      grind
    · rw [mem_keys_extendAll hlen hargs, mem_keys_bindParameter hbind]
      have hq : q = l → q ∈ params := fun e => e ▸ hl
      grind
    · rw [mem_keys_extendAll hlen hargs]
      have hq : q = l → q ∉ params := fun e => e ▸ hl
      grind

theorem mem_keys_extendAll {q : String} : ∀ {as ts : List TypeTree} {b b' : Bindings},
    as.length = ts.length → extendAll params as ts b = .ok b' →
    (q ∈ b'.keys ↔ q ∈ b.keys ∨ q ∈ params ∧ q ∈ labelsAll as)
  | [], [], b, b', _, h => by
    simp only [extendAll, Except.ok.injEq] at h
    simp [labelsAll, h]
  | a :: as, t :: ts, b, b', hlen, h => by
    obtain ⟨b₁, hhead, hrest⟩ := extendAll_cons_eq_ok_iff.mp h
    have hlen' : as.length = ts.length := by simpa using hlen
    rw [mem_keys_extendAll hlen' hrest, mem_keys_extend hhead, labelsAll, List.mem_append]
    grind
  | [], _ :: _, _, _, hlen, _ => by simp at hlen
  | _ :: _, [], _, _, hlen, _ => by simp at hlen

end

/-- A property that a type hands down to its arguments and to its bare label. -/
structure Hereditary (P : TypeTree → Prop) : Prop where
  bare : ∀ {l as}, P (.node l as) → P (leaf l)
  args : ∀ {l as}, P (.node l as) → ∀ a ∈ as, P a

mutual

/-- What a visit binds is a part of the second type, or the bare label of one. -/
theorem forall_extend {P : TypeTree → Prop} (hP : Hereditary P) :
    ∀ {u c : TypeTree} {b b' : Bindings}, extend params u c b = .ok b' → P c →
      (∀ q t, b.get? q = some t → P t) → ∀ q t, b'.get? q = some t → P t
  | .node l as, .node m bs, b, b', h, hc, hb => by
    have hbound : ∀ {p t b₁}, bindParameter p t b = .ok b₁ → P t →
        ∀ q x, b₁.get? q = some x → P x := by
      intro p t b₁ hbind ht q x hq
      rcases get?_bindParameter hbind hq with hq | rfl
      · exact hb q x hq
      · exact ht
    rcases extend_eq_ok_iff.mp h with ⟨-, -, hbind⟩ | ⟨-, -, -, b₁, hbind, hargs⟩ |
      ⟨-, -, -, hargs⟩
    · exact hbound hbind hc
    · exact forall_extendAll hP hargs (hP.args hc) (hbound hbind (hP.bare hc))
    · exact forall_extendAll hP hargs (hP.args hc) hb

theorem forall_extendAll {P : TypeTree → Prop} (hP : Hereditary P) :
    ∀ {as ts : List TypeTree} {b b' : Bindings}, extendAll params as ts b = .ok b' →
      (∀ t ∈ ts, P t) → (∀ q t, b.get? q = some t → P t) → ∀ q t, b'.get? q = some t → P t
  | [], _, b, b', h, _, hb => by
    simp only [extendAll, Except.ok.injEq] at h
    exact h ▸ hb
  | _ :: _, [], b, b', h, _, hb => by
    simp only [extendAll, Except.ok.injEq] at h
    exact h ▸ hb
  | a :: as, c :: cs, b, b', h, hts, hb => by
    obtain ⟨b₁, hhead, hrest⟩ := extendAll_cons_eq_ok_iff.mp h
    exact forall_extendAll hP hrest (fun t ht => hts t (List.mem_cons_of_mem c ht))
      (forall_extend hP hhead (hts c List.mem_cons_self) hb)

end

/-! ### Substitution of the solution -/

mutual

/-- Substitution does what a choice does, if it binds the parameters to what was chosen and no
parameter has arguments. -/
theorem substitute_of_instantiate {b : Bindings} (hout : ∀ l, l ∉ params → b.get? l = none) :
    ∀ {u c : TypeTree}, (∀ l ∈ labels u, l ∈ params → b.get? l = some (σ l)) →
      (∀ l ∈ appliedLabels u, l ∉ params) → instantiate params σ u = some c → substitute b u = c
  | .node l as, c, hin, happ, h => by
    have hargs : ∀ k ∈ labelsAll as, k ∈ params → b.get? k = some (σ k) :=
      fun k hk => hin k (List.mem_cons_of_mem l hk)
    rcases instantiate_eq_some_iff.mp h with ⟨hl, rfl, rfl⟩ | ⟨hl, has, -⟩ | ⟨hl, ts, hts, rfl⟩
    · rw [substitute, hin l List.mem_cons_self hl]
    · exact absurd hl (happ l (by simp [appliedLabels, has]))
    · rw [substitute, hout l hl]
      have happ' : ∀ k ∈ appliedLabelsAll as, k ∉ params :=
        fun k hk => happ k (List.mem_append_right _ hk)
      rw [substituteAll_of_instantiateAll hout hargs happ' hts]

theorem substituteAll_of_instantiateAll {b : Bindings}
    (hout : ∀ l, l ∉ params → b.get? l = none) :
    ∀ {as ts : List TypeTree}, (∀ l ∈ labelsAll as, l ∈ params → b.get? l = some (σ l)) →
      (∀ l ∈ appliedLabelsAll as, l ∉ params) → instantiateAll params σ as = some ts →
      substituteAll b as = ts
  | [], ts, _, _, h => by simpa [instantiateAll, substituteAll] using h
  | a :: as, ts, hin, happ, h => by
    obtain ⟨t, rest, ht, hrest, rfl⟩ := instantiateAll_cons_eq_some_iff.mp h
    rw [substituteAll,
      substitute_of_instantiate hout (fun l hl => hin l (List.mem_append_left _ hl))
        (fun l hl => happ l (List.mem_append_left _ hl)) ht,
      substituteAll_of_instantiateAll hout (fun l hl => hin l (List.mem_append_right _ hl))
        (fun l hl => happ l (List.mem_append_right _ hl)) hrest]

end

/-! ### Resolution -/

variable {u c : TypeTree} {b : Bindings}

theorem fits_resolve (h : resolve params u c = .ok b) :
    Fits σ b ↔ instantiate params σ u = some c := by
  rw [fits_extend h, and_iff_left (fits_empty σ)]

theorem mem_keys_resolve (h : resolve params u c = .ok b) {p : String} :
    p ∈ b.keys ↔ p ∈ params ∧ p ∈ labels u := by
  rw [mem_keys_extend h, or_iff_right]
  exact List.not_mem_nil

theorem forall_resolve {P : TypeTree → Prop} (hP : Hereditary P)
    (h : resolve params u c = .ok b) (hc : P c) : ∀ q t, b.get? q = some t → P t :=
  forall_extend hP h hc fun q t hq => by simp at hq

/-- A table read as a choice.  Names that it does not bind stand for themselves. -/
def choiceOf (b : Bindings) (p : String) : TypeTree := (b.get? p).getD (leaf p)

theorem fits_choiceOf (b : Bindings) : Fits (choiceOf b) b := by
  intro p t h
  rw [choiceOf, h, Option.getD_some]

theorem instantiate_choiceOf_resolve (h : resolve params u c = .ok b) :
    instantiate params (choiceOf b) u = some c := (fits_resolve h).mp (fits_choiceOf b)

theorem substitute_resolve (h : resolve params u c = .ok b)
    (happ : ∀ l ∈ appliedLabels u, l ∉ params) : substitute b u = c := by
  refine substitute_of_instantiate ?_ ?_ happ (instantiate_choiceOf_resolve h)
  · intro l hl
    rw [Table.get?_eq_none_iff, mem_keys_resolve h]
    exact fun hkey => hl hkey.1
  · intro l hl hp
    obtain ⟨t, ht⟩ := Table.mem_keys_iff.mp ((mem_keys_resolve h).mpr ⟨hp, hl⟩)
    rw [ht, fits_choiceOf b l t ht]

theorem resolve_finds_the_solution (params : List String) (u c : TypeTree) :
    ((∃ b, resolve params u c = .ok b) ↔ ∃ σ, instantiate params σ u = some c) ∧
    ∀ b, resolve params u c = .ok b →
      (∀ p, p ∈ b.keys ↔ p ∈ params ∧ p ∈ u.labels) ∧
      (∀ σ, instantiate params σ u = some c → ∀ p ∈ b.keys, b.get? p = some (σ p)) ∧
      ((∀ p ∈ params, p ∉ u.appliedLabels) → substitute b u = c) := by
  refine ⟨⟨?_, ?_⟩, fun b h => ⟨fun p => mem_keys_resolve h, ?_, ?_⟩⟩
  · rintro ⟨b, h⟩
    exact ⟨choiceOf b, instantiate_choiceOf_resolve h⟩
  · rintro ⟨σ, hσ⟩
    exact exists_extend hσ (fits_empty σ)
  · intro σ hσ p hp
    obtain ⟨t, ht⟩ := Table.mem_keys_iff.mp hp
    rw [ht, (fits_resolve h).mpr hσ p t ht]
  · intro happ
    exact substitute_resolve h fun l hl hp => happ l hp hl

-- A parameter that stands bare in one place and with arguments in another.
example :
    (resolve ["T"] (.node "pair" [leaf "T", .node "T" [leaf "int"]])
      (.node "pair" [leaf "list", .node "list" [leaf "int"]])).map Table.entries =
      .ok [("T", leaf "list")] := by rfl

end TypeTree
end Patchbay
