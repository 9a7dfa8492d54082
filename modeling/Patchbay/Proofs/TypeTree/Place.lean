import Patchbay.Proofs.TypeTree.Substitution

/-!
Places in types.  A place is the way from the root of a type to one of its nodes: at each level, the
number of the argument to go to.  Places are compared as lists are, so a node comes before its
arguments and the arguments stand from left to right.

What a substitution leaves of a type is told by places: the nodes that are not bound and stand below
no node that is.  All else was put in by the bindings, or went with the arguments of a bound node.
With that, `substitute_in_stages` says what two substitutions do one after the other, and which
names are left after the first.
-/

namespace Patchbay
namespace TypeTree

/-! ### Places -/

def partAt? : TypeTree → List Nat → Option TypeTree
  | t, [] => some t
  | t, i :: π => t.args[i]?.bind (partAt? · π)

theorem partAt?_nil (t : TypeTree) : t.partAt? [] = some t := rfl

theorem partAt?_cons_eq_some_iff {l : String} {as : List TypeTree} {i : Nat} {π : List Nat}
    {s : TypeTree} :
    partAt? (.node l as) (i :: π) = some s ↔ ∃ a, as[i]? = some a ∧ a.partAt? π = some s :=
  Option.bind_eq_some_iff

/-- From left to right, each node before its arguments. -/
def Precedes (π ρ : List Nat) : Prop := List.Lex (· < ·) π ρ

theorem Precedes.irrefl (π : List Nat) : ¬Precedes π π := List.lex_irrefl Nat.lt_irrefl π

theorem Precedes.asymm {π ρ : List Nat} (h : Precedes π ρ) : ¬Precedes ρ π :=
  List.lex_asymm Nat.lt_asymm h

/-! ### Nodes that a substitution reaches -/

variable {b : Bindings} {l m : String} {as : List TypeTree} {t : TypeTree} {names : List String}

/-- No node above the place has a label that is bound. -/
def Uncovered (b : Bindings) (t : TypeTree) (π : List Nat) : Prop :=
  ∀ ρ r, ρ <+: π → ρ ≠ π → t.partAt? ρ = some r → r.label ∉ b.keys

theorem uncovered_nil : Uncovered b t [] := fun _ _ hρ hne =>
  absurd (List.prefix_nil.mp hρ) hne

theorem uncovered_cons_iff {i : Nat} {π : List Nat} {a : TypeTree} (ha : as[i]? = some a) :
    Uncovered b (.node m as) (i :: π) ↔ m ∉ b.keys ∧ Uncovered b a π := by
  constructor
  · intro h
    refine ⟨h [] _ List.nil_prefix (by simp) rfl, fun ρ r hρ hne hr => ?_⟩
    exact h (i :: ρ) r (by simpa using hρ) (by simpa using hne)
      (partAt?_cons_eq_some_iff.mpr ⟨a, ha, hr⟩)
  · rintro ⟨hm, h⟩ ρ r hρ hne hr
    cases ρ with
    | nil =>
      obtain rfl := Option.some.inj hr
      exact hm
    | cons j ρ =>
      obtain ⟨rfl, hbelow⟩ := List.cons_prefix_cons.mp hρ
      obtain ⟨a', ha', hr⟩ := partAt?_cons_eq_some_iff.mp hr
      obtain rfl := Option.some.inj (ha.symm.trans ha')
      exact h ρ r hbelow (by simpa using hne) hr

theorem mentions_node : mentions names (.node l as) = true ↔
    l ∈ names ∨ ∃ a ∈ as, mentions names a = true := by
  have hargs : ∀ ts : List TypeTree,
      mentionsAny names ts = true ↔ ∃ a ∈ ts, mentions names a = true := by
    intro ts
    induction ts with
    | nil => simp [mentionsAny]
    | cons a ts ih => simp [mentionsAny, ih]
  rw [mentions, Bool.or_eq_true, hargs, List.contains_iff_mem]

theorem mentions_iff (t : TypeTree) : mentions names t = true ↔ ∃ l ∈ labels t, l ∈ names := by
  induction t using args_induction with
  | node l as ih =>
    rw [mentions_node]
    constructor
    · rintro (hl | ⟨a, ha, hmention⟩)
      · exact ⟨l, mem_labels.mpr (.inl rfl), hl⟩
      · obtain ⟨k, hk, hname⟩ := (ih a ha).mp hmention
        exact ⟨k, mem_labels.mpr (.inr ⟨a, ha, hk⟩), hname⟩
    · rintro ⟨k, hk, hname⟩
      rcases mem_labels.mp hk with rfl | ⟨a, ha, hka⟩
      · exact .inl hname
      · exact .inr ⟨a, ha, (ih a ha).mpr ⟨k, hka, hname⟩⟩

theorem mentions_eq_false (t : TypeTree) (h : Ground names t) : mentions names t = false := by
  rw [Bool.eq_false_iff, ne_eq, mentions_iff]
  rintro ⟨l, hl, hname⟩
  exact h l hl hname

/-- If the bound types mention none of the names, those that are left stand where they stood. -/
theorem mentions_substitute_iff (hb : ∀ p x, b.get? p = some x → Ground names x) (t : TypeTree) :
    mentions names (substitute b t) = true ↔
      ∃ π s, t.partAt? π = some s ∧ s.label ∈ names ∧ s.label ∉ b.keys ∧ Uncovered b t π := by
  induction t using args_induction with
  | node m as ih =>
    cases hm : b.get? m with
    | some x =>
      -- The node is bound, so every place in it is the node or is covered by it.
      have hkey : m ∈ b.keys := Table.mem_keys_iff.mpr ⟨x, hm⟩
      rw [substitute_of_some as hm, mentions_eq_false x (hb m x hm)]
      refine ⟨nofun, ?_⟩
      rintro ⟨π, s, hs, -, hfree, hopen⟩
      cases π with
      | nil =>
        obtain rfl := Option.some.inj hs
        exact absurd hkey hfree
      | cons i π =>
        obtain ⟨a, ha, -⟩ := partAt?_cons_eq_some_iff.mp hs
        exact absurd hkey ((uncovered_cons_iff ha).mp hopen).1
    | none =>
      have hkey : m ∉ b.keys := Table.get?_eq_none_iff.mp hm
      rw [substitute_of_none as hm, mentions_node]
      constructor
      · rintro (hmem | ⟨x, hx, hmention⟩)
        · exact ⟨[], .node m as, rfl, hmem, hkey, uncovered_nil⟩
        · obtain ⟨a, ha, rfl⟩ := List.mem_map.mp hx
          obtain ⟨π, s, hs, hname, hfree, hopen⟩ := (ih a ha).mp hmention
          obtain ⟨i, hi⟩ := List.mem_iff_getElem?.mp ha
          exact ⟨i :: π, s, partAt?_cons_eq_some_iff.mpr ⟨a, hi, hs⟩, hname, hfree,
            (uncovered_cons_iff hi).mpr ⟨hkey, hopen⟩⟩
      · rintro ⟨π, s, hs, hname, hfree, hopen⟩
        cases π with
        | nil =>
          obtain rfl := Option.some.inj hs
          exact .inl hname
        | cons i π =>
          obtain ⟨a, hi, hs⟩ := partAt?_cons_eq_some_iff.mp hs
          have ha : a ∈ as := List.mem_of_getElem? hi
          refine .inr ⟨_, List.mem_map_of_mem ha, (ih a ha).mpr ?_⟩
          exact ⟨π, s, hs, hname, hfree, ((uncovered_cons_iff hi).mp hopen).2⟩

/-! ### Two substitutions -/

theorem Ground.substitute_eq (h : Ground b.keys t) : substitute b t = t :=
  substitute_eq_self t fun l hl => Table.get?_eq_none_iff.mpr (h l hl)

/-- Types that are put in first are left alone if they mention nothing that is bound later. -/
theorem substitute_substitute {b₁ b₂ : Bindings}
    (h : ∀ p x, b₁.get? p = some x → Ground b₂.keys x) (t : TypeTree) :
    substitute b₂ (substitute b₁ t) = substitute (b₂.union b₁) t := by
  rw [substitute_union]
  exact fun p _ x hx => (h p x hx).substitute_eq

theorem substitute_idem (h : ∀ p x, b.get? p = some x → Ground b.keys x) (t : TypeTree) :
    substitute b (substitute b t) = substitute b t := by
  apply Ground.substitute_eq
  intro l hl
  rcases labels_substitute b t l hl with ⟨-, hfree⟩ | ⟨p, x, hx, hlx⟩
  · exact Table.get?_eq_none_iff.mp hfree
  · exact h p x hx l hlx

/-- Binding in stages is binding at once, what was bound first winning.  Names are left over exactly
where they stand unbound and below nothing that is bound. -/
theorem substitute_in_stages (t : TypeTree) (b₁ b₂ : Bindings) (names : List String) :
    ((∀ p x, b₁.get? p = some x → Ground b₂.keys x) →
      substitute b₂ (substitute b₁ t) = substitute (b₂.union b₁) t) ∧
    ((∀ p x, b₁.get? p = some x → Ground b₁.keys x) →
      substitute b₁ (substitute b₁ t) = substitute b₁ t) ∧
    ((∀ p x, b₁.get? p = some x → Ground names x) →
      (mentions names (substitute b₁ t) = true ↔
        ∃ π s, t.partAt? π = some s ∧ s.label ∈ names ∧ s.label ∉ b₁.keys ∧
          ∀ ρ r, ρ <+: π → ρ ≠ π → t.partAt? ρ = some r → r.label ∉ b₁.keys)) :=
  ⟨fun h => substitute_substitute h t, fun h => substitute_idem h t,
    fun h => mentions_substitute_iff h t⟩

/-- `T` is bound in both stages, and one of the two `U` goes with the arguments of `V`. -/
theorem substitute_in_stages_shared :
    let t : TypeTree := .node "pair" [.node "T" [leaf "int"], .node "V" [leaf "U"], leaf "U"]
    let b₁ : Bindings := .ofList [("T", .node "set" [leaf "W"]), ("V", leaf "int")]
    let b₂ : Bindings := .ofList [("T", leaf "str"), ("U", leaf "int")]
    (∀ p x, b₁.get? p = some x → Ground b₂.keys x) ∧
    substitute b₂ (substitute b₁ t) = substitute (b₂.union b₁) t ∧
    substitute (b₂.union b₁) t = .node "pair" [.node "set" [leaf "W"], leaf "int", leaf "int"] ∧
    ∃ π s, t.partAt? π = some s ∧ s.label ∈ b₂.keys ∧ s.label ∉ b₁.keys ∧
      ∀ ρ r, ρ <+: π → ρ ≠ π → t.partAt? ρ = some r → r.label ∉ b₁.keys := by
  intro t b₁ b₂
  have hground : ∀ p x, b₁.get? p = some x → Ground b₂.keys x := by
    intro p x hx
    rw [Table.get?_eq_some_iff] at hx
    have hx : (p, x) ∈ [("T", .node "set" [leaf "W"]), ("V", leaf "int")] := hx
    simp only [List.mem_cons, Prod.mk.injEq, List.not_mem_nil, or_false] at hx
    rcases hx with ⟨-, rfl⟩ | ⟨-, rfl⟩ <;> decide +kernel
  have hstages := substitute_in_stages t b₁ b₂ b₂.keys
  exact ⟨hground, hstages.1 hground, by decide +kernel,
    (hstages.2.2 hground).mp (by decide +kernel)⟩

end TypeTree
end Patchbay
