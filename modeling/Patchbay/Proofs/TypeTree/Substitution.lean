import Patchbay.Proofs.TypeTree.Matching
import Patchbay.Proofs.TypeTree.Spelling

/-!
Substitution in stages.  Bindings that come later change nothing in a type that does not mention
what they bind (`substitute_eq_self`, `substitute_of_extends`), and binding in two stages is binding
at once (`substitute_union`).  So the type that a resolution was made for becomes the other type,
with the old bindings and the new ones together (`substitute_union_resolve`).  Conversely, a table
with more bindings is a choice that solves the type under fewer of them (`instantiate_of_extends`).
`Ground` types mention none of the given names, and `Writable` types can be written down and read
back; resolution against such a type binds such types only.
-/

namespace Patchbay
namespace TypeTree

variable {b b' : Bindings} {l m : String} {as : List TypeTree} {t : TypeTree}

/-! ### Nodes and their arguments -/

/-- Induction in which the arguments of a node are one list. -/
@[elab_as_elim]
theorem args_induction {P : TypeTree → Prop}
    (node : ∀ l as, (∀ a ∈ as, P a) → P (.node l as)) (t : TypeTree) : P t :=
  @TypeTree.rec P (fun as => ∀ a ∈ as, P a) node (by simp)
    (fun _ _ ha has => List.forall_mem_cons.mpr ⟨ha, has⟩) t

theorem mem_labels : l ∈ labels (.node m as) ↔ l = m ∨ ∃ a ∈ as, l ∈ labels a := by
  have hargs : ∀ ts : List TypeTree, l ∈ labelsAll ts ↔ ∃ a ∈ ts, l ∈ labels a := by
    intro ts
    induction ts with
    | nil => simp [labelsAll]
    | cons a ts ih => simp [labelsAll, ih]
  rw [labels, List.mem_cons, hargs]

theorem mem_appliedLabels :
    l ∈ appliedLabels (.node m as) ↔ (as ≠ [] ∧ l = m) ∨ ∃ a ∈ as, l ∈ appliedLabels a := by
  have hargs : ∀ ts : List TypeTree, l ∈ appliedLabelsAll ts ↔ ∃ a ∈ ts, l ∈ appliedLabels a := by
    intro ts
    induction ts with
    | nil => simp [appliedLabelsAll]
    | cons a ts ih => simp [appliedLabelsAll, ih]
  rw [appliedLabels, List.mem_append, hargs]
  cases as <;> simp

theorem proper_node : Proper (.node l as) ↔ (l = wildcard → as = []) ∧ ∀ a ∈ as, Proper a := by
  have hargs : ∀ ts : List TypeTree, ProperAll ts ↔ ∀ a ∈ ts, Proper a := by
    intro ts
    induction ts with
    | nil => simp [ProperAll]
    | cons a ts ih => simp [ProperAll, ih]
  rw [Proper, hargs]

theorem substitute_of_some (as : List TypeTree) (h : b.get? l = some t) :
    substitute b (.node l as) = t := by
  simp only [substitute, h]

theorem substitute_of_none (as : List TypeTree) (h : b.get? l = none) :
    substitute b (.node l as) = .node l (as.map (substitute b)) := by
  have hargs : ∀ ts : List TypeTree, substituteAll b ts = ts.map (substitute b) := by
    intro ts
    induction ts with
    | nil => rfl
    | cons a ts ih => rw [substituteAll, List.map_cons, ih]
  simp only [substitute, h, hargs]

theorem labels_of_appliedLabels (t : TypeTree) : ∀ l ∈ appliedLabels t, l ∈ labels t := by
  induction t using args_induction with
  | node m as ih =>
    intro l hl
    rw [mem_labels]
    rcases mem_appliedLabels.mp hl with ⟨-, hm⟩ | ⟨a, ha, hla⟩
    · exact .inl hm
    · exact .inr ⟨a, ha, ih a ha l hla⟩

/-! ### What a substitution leaves -/

/-- A label after a substitution was not bound, or stands in a type that was put in. -/
theorem labels_substitute (b : Bindings) (t : TypeTree) : ∀ l ∈ labels (substitute b t),
    (l ∈ labels t ∧ b.get? l = none) ∨ ∃ p x, b.get? p = some x ∧ l ∈ labels x := by
  induction t using args_induction with
  | node m as ih =>
    intro l hl
    cases hm : b.get? m with
    | some x => exact .inr ⟨m, x, hm, by rwa [substitute_of_some as hm] at hl⟩
    | none =>
      rw [substitute_of_none as hm, mem_labels] at hl
      rcases hl with rfl | ⟨x, hx, hl⟩
      · exact .inl ⟨mem_labels.mpr (.inl rfl), hm⟩
      · obtain ⟨a, ha, rfl⟩ := List.mem_map.mp hx
        rcases ih a ha l hl with ⟨hla, hnone⟩ | hput
        · exact .inl ⟨mem_labels.mpr (.inr ⟨a, ha, hla⟩), hnone⟩
        · exact .inr hput

theorem appliedLabels_substitute (b : Bindings) (t : TypeTree) :
    ∀ l ∈ appliedLabels (substitute b t),
      l ∈ appliedLabels t ∨ ∃ p x, b.get? p = some x ∧ l ∈ labels x := by
  induction t using args_induction with
  | node m as ih =>
    intro l hl
    cases hm : b.get? m with
    | some x =>
      rw [substitute_of_some as hm] at hl
      exact .inr ⟨m, x, hm, labels_of_appliedLabels x l hl⟩
    | none =>
      rw [substitute_of_none as hm, mem_appliedLabels] at hl
      rcases hl with ⟨hne, rfl⟩ | ⟨x, hx, hl⟩
      · exact .inl (mem_appliedLabels.mpr (.inl ⟨by simpa using hne, rfl⟩))
      · obtain ⟨a, ha, rfl⟩ := List.mem_map.mp hx
        rcases ih a ha l hl with hla | hput
        · exact .inl (mem_appliedLabels.mpr (.inr ⟨a, ha, hla⟩))
        · exact .inr hput

theorem proper_substitute (hb : ∀ p x, b.get? p = some x → Proper x) (t : TypeTree) :
    Proper t → Proper (substitute b t) := by
  induction t using args_induction with
  | node m as ih =>
    intro ht
    obtain ⟨hstar, hargs⟩ := proper_node.mp ht
    cases hm : b.get? m with
    | some x =>
      rw [substitute_of_some as hm]
      exact hb m x hm
    | none =>
      rw [substitute_of_none as hm, proper_node]
      refine ⟨fun hl => by rw [hstar hl, List.map_nil], fun x hx => ?_⟩
      obtain ⟨a, ha, rfl⟩ := List.mem_map.mp hx
      exact ih a ha (hargs a ha)

/-! ### Stages -/

/-- A substitution leaves a type that mentions nothing bound. -/
theorem substitute_eq_self (t : TypeTree) :
    (∀ l ∈ labels t, b.get? l = none) → substitute b t = t := by
  induction t using args_induction with
  | node m as ih =>
    intro h
    rw [substitute_of_none as (h m (mem_labels.mpr (.inl rfl)))]
    congr 1
    rw [List.map_congr_left fun a ha => ih a ha fun l hl => h l (mem_labels.mpr (.inr ⟨a, ha, hl⟩)),
      List.map_id']

/-- More bindings change nothing if what is left of the type mentions none of the new ones. -/
theorem substitute_of_extends (hext : ∀ p x, b.get? p = some x → b'.get? p = some x)
    (t : TypeTree) : (∀ l ∈ labels (substitute b t), b.get? l = none → b'.get? l = none) →
    substitute b' t = substitute b t := by
  induction t using args_induction with
  | node m as ih =>
    intro h
    cases hm : b.get? m with
    | some x => rw [substitute_of_some as hm, substitute_of_some as (hext m x hm)]
    | none =>
      rw [substitute_of_none as hm] at h ⊢
      rw [substitute_of_none as (h m (mem_labels.mpr (.inl rfl)) hm)]
      congr 1
      refine List.map_congr_left fun a ha => ih a ha fun l hl => ?_
      exact h l (mem_labels.mpr (.inr ⟨_, List.mem_map_of_mem ha, hl⟩))

/-- With more bindings a type has the labels that it had and those of the types that come in. -/
theorem labels_substitute_of_extends (hext : ∀ p x, b.get? p = some x → b'.get? p = some x)
    (t : TypeTree) : ∀ l ∈ labels (substitute b' t), l ∈ labels (substitute b t) ∨
      ∃ p x, b.get? p = none ∧ b'.get? p = some x ∧ l ∈ labels x := by
  induction t using args_induction with
  | node m as ih =>
    intro l hl
    cases hm : b.get? m with
    | some x =>
      rw [substitute_of_some as (hext m x hm)] at hl
      rw [substitute_of_some as hm]
      exact .inl hl
    | none =>
      rw [substitute_of_none as hm, mem_labels]
      cases hm' : b'.get? m with
      | some x =>
        rw [substitute_of_some as hm'] at hl
        exact .inr ⟨m, x, hm, hm', hl⟩
      | none =>
        rw [substitute_of_none as hm', mem_labels] at hl
        rcases hl with rfl | ⟨x, hx, hl⟩
        · exact .inl (.inl rfl)
        · obtain ⟨a, ha, rfl⟩ := List.mem_map.mp hx
          rcases ih a ha l hl with hold | hnew
          · exact .inl (.inr ⟨_, List.mem_map_of_mem ha, hold⟩)
          · exact .inr hnew

/-- Two stages are one, in which what was bound first wins, if what is put in by the first is left
alone by the second. -/
theorem substitute_union (t : TypeTree) :
    (∀ p ∈ labels t, ∀ x, b.get? p = some x → substitute b' x = x) →
    substitute (b'.union b) t = substitute b' (substitute b t) := by
  induction t using args_induction with
  | node m as ih =>
    intro h
    have hget := Table.get?_union b' b m
    cases hm : b.get? m with
    | some x =>
      rw [hm, Option.some_or] at hget
      rw [substitute_of_some as hm, substitute_of_some as hget,
        h m (mem_labels.mpr (.inl rfl)) x hm]
    | none =>
      rw [hm, Option.none_or] at hget
      rw [substitute_of_none as hm]
      cases hm' : b'.get? m with
      | some x => rw [substitute_of_some _ hm', substitute_of_some as (hget.trans hm')]
      | none =>
        rw [substitute_of_none _ hm', substitute_of_none as (hget.trans hm'), List.map_map]
        congr 1
        exact List.map_congr_left fun a ha => ih a ha fun p hp =>
          h p (mem_labels.mpr (.inr ⟨a, ha, hp⟩))

/-- The type that was resolved becomes the other type, under the bindings that it had and those that
were found.  Parameters with arguments lose them, and what was put in earlier is not looked at
again, so neither may hold a parameter that was free. -/
theorem substitute_union_resolve {params : List String} {c : TypeTree}
    (h : resolve params (substitute b t) c = .ok b')
    (hbare : ∀ l ∈ appliedLabels (substitute b t), l ∉ params)
    (hput : ∀ p ∈ labels t, ∀ x, b.get? p = some x → ∀ l ∈ labels x, l ∉ params) :
    substitute (b'.union b) t = c := by
  rw [substitute_union, substitute_resolve h hbare]
  intro p hp x hx
  refine substitute_eq_self x fun l hl => ?_
  rw [Table.get?_eq_none_iff, mem_keys_resolve h]
  exact fun hkey => hput p hp x hx l hl hkey.1

/-! ### Types against themselves -/

theorem agrees_refl (t : TypeTree) : agrees t t = true := by
  induction t using args_induction with
  | node m as ih =>
    have hargs : ∀ ts : List TypeTree, (∀ a ∈ ts, agrees a a = true) → agreesAll ts ts = true := by
      intro ts
      induction ts with
      | nil => exact fun _ => rfl
      | cons a ts ihts =>
        intro h
        rw [agreesAll, h a List.mem_cons_self, ihts fun x hx => h x (List.mem_cons_of_mem a hx)]
        rfl
    simp [agrees, hargs as ih]

theorem extend_self {params : List String} (t : TypeTree) :
    (∀ l ∈ labels t, l ∉ params) → ∀ b, extend params t t b = .ok b := by
  induction t using args_induction with
  | node m as ih =>
    intro h b
    have hargs : ∀ ts : List TypeTree, (∀ a ∈ ts, extend params a a b = .ok b) →
        extendAll params ts ts b = .ok b := by
      intro ts
      induction ts with
      | nil => exact fun _ => by rw [extendAll]
      | cons a ts ihts =>
        intro h
        rw [extendAll_cons_eq_ok_iff]
        exact ⟨b, h a List.mem_cons_self, ihts fun x hx => h x (List.mem_cons_of_mem a hx)⟩
    rw [extend_eq_ok_iff]
    refine .inr (.inr ⟨h m (mem_labels.mpr (.inl rfl)), rfl, rfl, hargs as fun a ha => ?_⟩)
    exact ih a ha (fun l hl => h l (mem_labels.mpr (.inr ⟨a, ha, hl⟩))) b

theorem resolve_self {params : List String} (h : ∀ l ∈ labels t, l ∉ params) :
    resolve params t t = .ok ∅ := extend_self t h ∅

/-! ### Choices and stages -/

theorem instantiate_self {params : List String} (σ : String → TypeTree)
    (h : ∀ l ∈ labels t, l ∉ params) : instantiate params σ t = some t :=
  (fits_resolve (resolve_self h)).mp (fits_empty σ)

/-- A choice that is read from a table comes from an entry, but for names that stand for
themselves. -/
theorem get?_of_fits_choiceOf {p : String} {x : TypeTree} (h : Fits (choiceOf b') b)
    (hx : b.get? p = some x) (hp : p ∉ labels x) : b'.get? p = some x := by
  have hchoice := h p x hx
  cases hp' : b'.get? p with
  | some y =>
    rw [choiceOf, hp', Option.getD_some] at hchoice
    rw [hchoice]
  | none =>
    rw [choiceOf, hp', Option.getD_none] at hchoice
    rw [← hchoice] at hp
    exact absurd (mem_labels.mpr (.inl rfl)) hp

/-- A table with more bindings is a choice for the parameters in a type under fewer of them.  The
parameters have to stand bare in it, and the bindings that are new bind nothing else in it. -/
theorem instantiate_of_extends {params : List String}
    (hext : ∀ p x, b.get? p = some x → b'.get? p = some x)
    (hput : ∀ p x, b.get? p = some x → ∀ l ∈ labels x, l ∉ params) (t : TypeTree) :
    (∀ l ∈ appliedLabels (substitute b t), l ∉ params) →
    (∀ l ∈ labels (substitute b t), l ∉ params → b.get? l = none → b'.get? l = none) →
    instantiate params (choiceOf b') (substitute b t) = some (substitute b' t) := by
  induction t using args_induction with
  | node m as ih =>
    intro hbare hout
    cases hm : b.get? m with
    | some x =>
      rw [substitute_of_some as hm, substitute_of_some as (hext m x hm)]
      exact instantiate_self _ (hput m x hm)
    | none =>
      rw [substitute_of_none as hm] at hbare hout ⊢
      rw [instantiate_eq_some_iff]
      by_cases hp : m ∈ params
      · have has : as = [] := by
          by_contra hne
          exact hbare m (mem_appliedLabels.mpr (.inl ⟨by simpa using hne, rfl⟩)) hp
        subst has
        refine .inl ⟨hp, rfl, ?_⟩
        cases hm' : b'.get? m with
        | some x => rw [substitute_of_some [] hm', choiceOf, hm', Option.getD_some]
        | none =>
          rw [substitute_of_none [] hm', choiceOf, hm', Option.getD_none, leaf, List.map_nil]
      · have hargs : ∀ ts : List TypeTree,
            (∀ a ∈ ts, instantiate params (choiceOf b') (substitute b a) = some (substitute b' a)) →
            instantiateAll params (choiceOf b') (ts.map (substitute b)) =
              some (ts.map (substitute b')) := by
          intro ts
          induction ts with
          | nil => exact fun _ => rfl
          | cons a ts ihts =>
            intro h
            rw [List.map_cons, instantiateAll_cons_eq_some_iff]
            exact ⟨_, _, h a List.mem_cons_self,
              ihts fun x hx => h x (List.mem_cons_of_mem a hx), rfl⟩
        have hm' : b'.get? m = none := hout m (mem_labels.mpr (.inl rfl)) hp hm
        rw [substitute_of_none as hm']
        refine .inr (.inr ⟨hp, _, hargs as fun a ha => ih a ha ?_ ?_, rfl⟩)
        · exact fun l hl => hbare l
            (mem_appliedLabels.mpr (.inr ⟨_, List.mem_map_of_mem ha, hl⟩))
        · exact fun l hl => hout l (mem_labels.mpr (.inr ⟨_, List.mem_map_of_mem ha, hl⟩))

/-! ### Ground and writable types -/

theorem hereditary_labels (Q : String → Prop) : Hereditary fun t => ∀ l ∈ labels t, Q l where
  bare := by
    intro l as h k hk
    rcases mem_labels.mp hk with hk | ⟨a, ha, -⟩
    · exact h k (mem_labels.mpr (.inl hk))
    · cases ha
  args := fun h a ha k hk => h k (mem_labels.mpr (.inr ⟨a, ha, hk⟩))

/-- None of the names stands in the type. -/
def Ground (names : List String) (t : TypeTree) : Prop := ∀ l ∈ labels t, l ∉ names

instance (names : List String) (t : TypeTree) : Decidable (Ground names t) :=
  inferInstanceAs (Decidable (∀ l ∈ labels t, l ∉ names))

theorem ground_cons_iff {name : String} {names : List String} :
    Ground (name :: names) t ↔ name ∉ labels t ∧ Ground names t := by
  simp only [Ground, List.mem_cons, not_or]
  constructor
  · exact fun h => ⟨fun hname => (h name hname).1 rfl, fun l hl => (h l hl).2⟩
  · rintro ⟨hname, hground⟩ l hl
    exact ⟨fun hl' => hname (hl' ▸ hl), hground l hl⟩

/-- A type that can be written down and read back. -/
structure Writable (t : TypeTree) : Prop where
  proper : Proper t
  named : ∀ l ∈ labels t, l ≠ ""

theorem Ground.hereditary (names : List String) : Hereditary (Ground names) :=
  hereditary_labels (· ∉ names)

theorem Writable.hereditary : Hereditary Writable where
  bare := fun h => ⟨proper_node.mpr ⟨fun _ => rfl, by simp⟩,
    (hereditary_labels (· ≠ "")).bare h.named⟩
  args := fun h a ha => ⟨(proper_node.mp h.proper).2 a ha,
    (hereditary_labels (· ≠ "")).args h.named a ha⟩

theorem Writable.substitute (hb : ∀ p x, b.get? p = some x → Writable x) (h : Writable t) :
    Writable (substitute b t) := by
  refine ⟨proper_substitute (fun p x hx => (hb p x hx).proper) t h.proper, fun l hl => ?_⟩
  rcases labels_substitute b t l hl with ⟨hlt, -⟩ | ⟨p, x, hx, hlx⟩
  · exact h.named l hlt
  · exact (hb p x hx).named l hlx

mutual

theorem Spells.proper : ∀ {t : TypeTree} {cs : List Char}, Spells t cs → Proper t
  | _, _, .leaf _ _ _ => proper_node.mpr ⟨fun _ => rfl, by simp⟩
  | _, _, .node _ hstar _ _ _ hargs =>
    proper_node.mpr ⟨fun hl => absurd hl hstar, SpellsAll.proper hargs⟩

theorem SpellsAll.proper : ∀ {as : List TypeTree} {cs : List Char}, SpellsAll as cs →
    ∀ a ∈ as, Proper a
  | _, _, .one h => by simpa using h.proper
  | _, _, .more h hs => by simpa using ⟨h.proper, hs.proper⟩

end

mutual

theorem Spells.isLabel : ∀ {t : TypeTree} {cs : List Char}, Spells t cs →
    ∀ l ∈ labels t, IsLabel l
  | _, _, .leaf hlabel _ _, l, hl => by
    rcases mem_labels.mp hl with rfl | ⟨a, ha, -⟩
    · exact hlabel
    · cases ha
  | _, _, .node hlabel _ _ _ _ hargs, l, hl => by
    rcases mem_labels.mp hl with rfl | ⟨a, ha, hla⟩
    · exact hlabel
    · exact hargs.isLabel a ha l hla

theorem SpellsAll.isLabel : ∀ {as : List TypeTree} {cs : List Char}, SpellsAll as cs →
    ∀ a ∈ as, ∀ l ∈ labels a, IsLabel l
  | _, _, .one h => by simpa using h.isLabel
  | _, _, .more h hs => by simpa using ⟨h.isLabel, hs.isLabel⟩

end

theorem writable_of_parse {text : String} (h : parse text = .ok t) : Writable t := by
  have hspell := spells_of_parseChars h
  refine ⟨hspell.proper, fun l hl hempty => ?_⟩
  exact (hspell.isLabel l hl).nonempty (by rw [hempty]; rfl)

end TypeTree
end Patchbay
