import Patchbay.Proofs.TypeTree.Substitution

/-!
What the wildcard stands for.  A type is filled in when each of its wildcards is replaced by some
type, one without regard to the other.  Two types agree exactly if they can be filled in to one and
the same type (`agrees_iff_fills`).

Agreement is not transitive: `list<int>` and `list<str>` both agree with the wildcard.  What is left
of it follows from the types that two types can become: it is symmetric, it is equality where there
is no wildcard, and a type agrees with all that one of its fillings agrees with.
-/

namespace Patchbay
namespace TypeTree

mutual

/-- The second type is the first with a type in place of each wildcard. -/
inductive Fills : TypeTree → TypeTree → Prop
  | any {c : TypeTree} (proper : c.Proper) : Fills (leaf wildcard) c
  | node {l : String} {as cs : List TypeTree} (named : l ≠ wildcard) (args : FillsAll as cs) :
      Fills (.node l as) (.node l cs)

inductive FillsAll : List TypeTree → List TypeTree → Prop
  | nil : FillsAll [] []
  | cons {a c : TypeTree} {as cs : List TypeTree} (head : Fills a c) (rest : FillsAll as cs) :
      FillsAll (a :: as) (c :: cs)

end

/-! ### Fillings -/

mutual

theorem Fills.proper : ∀ {a c : TypeTree}, Fills a c → c.Proper
  | _, _, .any proper => proper
  | _, _, .node named args => ⟨fun hl => absurd hl named, args.proper⟩

theorem FillsAll.proper : ∀ {as cs : List TypeTree}, FillsAll as cs → ProperAll cs
  | _, _, .nil => trivial
  | _, _, .cons head rest => ⟨head.proper, rest.proper⟩

end

mutual

/-- A wildcard may be filled in with itself. -/
theorem fills_self : ∀ {t : TypeTree}, t.Proper → Fills t t
  | .node l as, ht => by
    by_cases hl : l = wildcard
    · obtain rfl : as = [] := ht.1 hl
      subst hl
      exact .any ht
    · exact .node hl (fillsAll_self ht.2)

theorem fillsAll_self : ∀ {ts : List TypeTree}, ProperAll ts → FillsAll ts ts
  | [], _ => .nil
  | _ :: _, ht => .cons (fills_self ht.1) (fillsAll_self ht.2)

end

mutual

theorem Fills.trans : ∀ {a b c : TypeTree}, Fills a b → Fills b c → Fills a c
  | _, _, _, .any _, h => .any h.proper
  | _, _, _, .node named args, .node _ args' => .node named (args.trans args')
  | _, _, _, .node named _, .any _ => absurd rfl named

theorem FillsAll.trans : ∀ {as bs cs : List TypeTree}, FillsAll as bs → FillsAll bs cs →
    FillsAll as cs
  | _, _, _, .nil, .nil => .nil
  | _, _, _, .cons head rest, .cons head' rest' => .cons (head.trans head') (rest.trans rest')

end

mutual

/-- Without a wildcard there is nothing to fill in. -/
theorem Fills.eq_self : ∀ {a c : TypeTree}, Fills a c → wildcard ∉ labels a → c = a
  | _, _, .any _, hfree => absurd List.mem_cons_self hfree
  | _, _, .node _ args, hfree => by
    rw [args.eq_self fun h => hfree (List.mem_cons_of_mem _ h)]

theorem FillsAll.eq_self : ∀ {as cs : List TypeTree}, FillsAll as cs → wildcard ∉ labelsAll as →
    cs = as
  | _, _, .nil, _ => rfl
  | _, _, .cons head rest, hfree => by
    rw [head.eq_self fun h => hfree (List.mem_append_left _ h),
      rest.eq_self fun h => hfree (List.mem_append_right _ h)]

end

theorem proper_of_not_mem (t : TypeTree) : wildcard ∉ labels t → t.Proper := by
  induction t using args_induction with
  | node l as ih =>
    intro hfree
    refine proper_node.mpr ⟨fun hl => ?_, fun a ha => ?_⟩
    · exact absurd (mem_labels.mpr (.inl hl.symm)) hfree
    · exact ih a ha fun h => hfree (mem_labels.mpr (.inr ⟨a, ha, h⟩))

/-! ### Agreement -/

theorem agrees_node_iff {l m : String} {as bs : List TypeTree} :
    agrees (.node l as) (.node m bs) = true ↔
      l = wildcard ∨ m = wildcard ∨ l = m ∧ agreesAll as bs = true := by
  simp [agrees, or_assoc]

mutual

theorem agrees_of_fills : ∀ {a b c : TypeTree}, Fills a c → Fills b c → agrees a b = true
  | _, .node _ _, _, .any _, _ => agrees_node_iff.mpr (.inl rfl)
  | .node _ _, _, _, .node _ _, .any _ => agrees_node_iff.mpr (.inr (.inl rfl))
  | _, _, _, .node _ args, .node _ args' =>
    agrees_node_iff.mpr (.inr (.inr ⟨rfl, agreesAll_of_fillsAll args args'⟩))

theorem agreesAll_of_fillsAll : ∀ {as bs cs : List TypeTree}, FillsAll as cs → FillsAll bs cs →
    agreesAll as bs = true
  | _, _, _, .nil, .nil => rfl
  | _, _, _, .cons head rest, .cons head' rest' => by
    rw [agreesAll, agrees_of_fills head head', agreesAll_of_fillsAll rest rest', Bool.and_self]

end

mutual

/-- Where one type has a wildcard, the common filling takes what the other type has there. -/
theorem exists_fills : ∀ {a b : TypeTree}, a.Proper → b.Proper → agrees a b = true →
    ∃ c, Fills a c ∧ Fills b c
  | .node l as, .node m bs, ha, hb, h => by
    by_cases hl : l = wildcard
    · obtain rfl : as = [] := ha.1 hl
      subst hl
      exact ⟨.node m bs, .any hb, fills_self hb⟩
    · by_cases hm : m = wildcard
      · obtain rfl : bs = [] := hb.1 hm
        subst hm
        exact ⟨.node l as, fills_self ha, .any ha⟩
      · rcases agrees_node_iff.mp h with hl' | hm' | ⟨rfl, hargs⟩
        · exact absurd hl' hl
        · exact absurd hm' hm
        · obtain ⟨cs, has, hbs⟩ := exists_fillsAll ha.2 hb.2 hargs
          exact ⟨.node l cs, .node hl has, .node hl hbs⟩

theorem exists_fillsAll : ∀ {as bs : List TypeTree}, ProperAll as → ProperAll bs →
    agreesAll as bs = true → ∃ cs, FillsAll as cs ∧ FillsAll bs cs
  | [], [], _, _, _ => ⟨[], .nil, .nil⟩
  | a :: as, b :: bs, ha, hb, h => by
    rw [agreesAll, Bool.and_eq_true] at h
    obtain ⟨c, hac, hbc⟩ := exists_fills ha.1 hb.1 h.1
    obtain ⟨cs, hacs, hbcs⟩ := exists_fillsAll ha.2 hb.2 h.2
    exact ⟨c :: cs, .cons hac hacs, .cons hbc hbcs⟩
  | [], _ :: _, _, _, h => by simp [agreesAll] at h
  | _ :: _, [], _, _, h => by simp [agreesAll] at h

end

variable {a b : TypeTree}

theorem agrees_iff_fills (ha : a.Proper) (hb : b.Proper) :
    agrees a b = true ↔ ∃ c, Fills a c ∧ Fills b c :=
  ⟨exists_fills ha hb, fun ⟨_, hac, hbc⟩ => agrees_of_fills hac hbc⟩

/-- Types without a wildcard agree only if they are one. -/
theorem agrees_iff_eq (ha : wildcard ∉ labels a) (hb : wildcard ∉ labels b) :
    agrees a b = true ↔ a = b := by
  constructor
  · intro h
    obtain ⟨c, hac, hbc⟩ := exists_fills (proper_of_not_mem a ha) (proper_of_not_mem b hb) h
    rw [← hac.eq_self ha, hbc.eq_self hb]
  · rintro rfl
    exact agrees_refl a

theorem agrees_decides_common_filling (a b : TypeTree) (ha : a.Proper) (hb : b.Proper) :
    (agrees a b = true ↔ ∃ c, Fills a c ∧ Fills b c) ∧
    agrees a b = agrees b a ∧
    (wildcard ∉ labels a → wildcard ∉ labels b → agrees a b = equal a b) ∧
    ∀ a', Fills a a' → agrees a' b = true → agrees a b = true := by
  refine ⟨agrees_iff_fills ha hb, ?_, fun hfa hfb => ?_, fun a' hfill hagrees => ?_⟩
  · rw [Bool.eq_iff_iff, agrees_iff_fills ha hb, agrees_iff_fills hb ha]
    exact exists_congr fun c => and_comm
  · rw [Bool.eq_iff_iff, agrees_iff_eq hfa hfb, equal_iff]
  · obtain ⟨c, hac, hbc⟩ := exists_fills hfill.proper hb hagrees
    exact agrees_of_fills (hfill.trans hac) hbc

/-- `pair<*, list<*>>` and `pair<list<int>, *>` meet in `pair<list<int>, list<*>>`. -/
theorem agrees_decides_common_filling_pair :
    let a : TypeTree := .node "pair" [leaf "*", .node "list" [leaf "*"]]
    let b : TypeTree := .node "pair" [.node "list" [leaf "int"], leaf "*"]
    a.Proper ∧ b.Proper ∧ agrees a b = true ∧ ∃ c, Fills a c ∧ Fills b c := by
  intro a b
  have ha : a.Proper := by simp [a, Proper, ProperAll, leaf, wildcard]
  have hb : b.Proper := by simp [b, Proper, ProperAll, leaf, wildcard]
  have hagrees : agrees a b = true := by decide
  exact ⟨ha, hb, hagrees, (agrees_decides_common_filling a b ha hb).1.mp hagrees⟩

end TypeTree
end Patchbay
