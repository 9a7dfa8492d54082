import Patchbay.Proofs.Except
import Patchbay.Proofs.TypeTree.Place

/-!
What a failed resolution reports.  `ObstacleAt` says, without a table and without a walk, what can
stand in the way at a place of two types: labels that differ, numbers of arguments that differ, or a
parameter that would have to stand for something else at an earlier place.  Resolution fails exactly
if there is such a place, and reports what it meets at the first one
(`resolve_error_iff_first_obstacle`).

The proof lays the walk out as a list: `meetings` are the places that both types have, in order, and
resolution takes one step for each (`extend_eq_foldlM`).  What a step does is said once
(`visit_eq_ok_iff`, `visit_eq_error_iff`), and the table that a run leaves holds what the places so
far ask of the parameters (`get?_visits`).
-/

namespace Patchbay
namespace TypeTree

/-! ### Obstacles -/

/-- What a parameter has to stand for where it meets a type: without arguments for all of the type,
with arguments for its label. -/
def imposed (e a : TypeTree) : TypeTree := if e.args = [] then a else leaf a.label

/-- The parameter stands at the place and has to become `x`. -/
def Imposes (u c : TypeTree) (π : List Nat) (p : String) (x : TypeTree) : Prop :=
  ∃ e a, u.partAt? π = some e ∧ c.partAt? π = some a ∧ e.label = p ∧ imposed e a = x

/-- Something stands in the way at a place.  A parameter without arguments takes any type, so it is
never an obstacle by itself. -/
inductive ObstacleAt (params : List String) (u c : TypeTree) (π : List Nat) : Obstacle → Prop
  | mainType {e a : TypeTree} (expected : u.partAt? π = some e) (actual : c.partAt? π = some a)
      (fixed : e.label ∉ params) (differ : e.label ≠ a.label) :
      ObstacleAt params u c π (.mainType e a)
  | arity {e a : TypeTree} (expected : u.partAt? π = some e) (actual : c.partAt? π = some a)
      (joined : e.label ∉ params ∧ e.label = a.label ∨ e.label ∈ params ∧ e.args ≠ [])
      (differ : e.arity ≠ a.arity) : ObstacleAt params u c π (.arity e a)
  | conflict {p : String} {e a : TypeTree} {π₀ : List Nat} (param : p ∈ params)
      (earlier : Precedes π₀ π) (first : Imposes u c π₀ p e) (second : Imposes u c π p a)
      (differ : e ≠ a) : ObstacleAt params u c π (.conflict p e a)

/-! ### Meetings -/

structure Meeting where
  place : List Nat
  expected : TypeTree
  actual : TypeTree

/-- A meeting of two arguments, seen from the nodes above. -/
def Meeting.under (i : Nat) (m : Meeting) : Meeting := { m with place := i :: m.place }

mutual

/-- The places that two types have in common, from left to right and nodes before arguments. -/
def meetings : TypeTree → TypeTree → List Meeting
  | .node l as, .node m bs => ⟨[], .node l as, .node m bs⟩ :: meetingsFrom 0 as bs

/-- `i` arguments stand before the given ones. -/
def meetingsFrom : Nat → List TypeTree → List TypeTree → List Meeting
  | i, a :: as, b :: bs => (meetings a b).map (.under i) ++ meetingsFrom (i + 1) as bs
  | _, [], _ => []
  | _, _ :: _, [] => []

end

theorem mem_meetingsFrom {m : Meeting} {as : List TypeTree} : ∀ {i : Nat} {bs : List TypeTree},
    m ∈ meetingsFrom i as bs ↔ ∃ j a b n, as[j]? = some a ∧ bs[j]? = some b ∧ n ∈ meetings a b ∧
      m = n.under (i + j) := by
  induction as with
  | nil => simp [meetingsFrom]
  | cons a as ih =>
    intro i bs
    cases bs with
    | nil => simp [meetingsFrom]
    | cons b bs =>
      rw [meetingsFrom, List.mem_append, List.mem_map, ih]
      constructor
      · rintro (⟨n, hn, rfl⟩ | ⟨j, a', b', n, ha, hb, hn, rfl⟩)
        · exact ⟨0, a, b, n, rfl, rfl, hn, rfl⟩
        · exact ⟨j + 1, a', b', n, ha, hb, hn, by rw [Nat.add_right_comm, Nat.add_assoc]⟩
      · rintro ⟨j, a', b', n, ha, hb, hn, rfl⟩
        cases j with
        | zero =>
          obtain rfl := Option.some.inj ha
          obtain rfl := Option.some.inj hb
          exact .inl ⟨n, hn, rfl⟩
        | succ j => exact .inr ⟨j, a', b', n, ha, hb, hn, by rw [Nat.add_right_comm, Nat.add_assoc]⟩

theorem mem_meetings (u : TypeTree) : ∀ {c : TypeTree} {m : Meeting}, m ∈ meetings u c ↔
    u.partAt? m.place = some m.expected ∧ c.partAt? m.place = some m.actual := by
  induction u using args_induction with
  | node l as ih =>
    rintro ⟨k, bs⟩ ⟨π, e, a⟩
    rw [meetings, List.mem_cons, mem_meetingsFrom]
    cases π with
    | nil => simp [Meeting.under, partAt?_nil, eq_comm]
    | cons i π =>
      simp only [partAt?_cons_eq_some_iff]
      constructor
      · rintro (hroot | ⟨j, x, y, ⟨π', e', a'⟩, hx, hy, hn, hm⟩)
        · cases hroot
        · simp only [Meeting.under, Nat.zero_add, Meeting.mk.injEq, List.cons.injEq] at hm
          obtain ⟨⟨rfl, rfl⟩, rfl, rfl⟩ := hm
          obtain ⟨he, ha⟩ := (ih x (List.mem_of_getElem? hx)).mp hn
          exact ⟨⟨x, hx, he⟩, y, hy, ha⟩
      · rintro ⟨⟨x, hx, he⟩, y, hy, ha⟩
        refine .inr ⟨i, x, y, ⟨π, e, a⟩, hx, hy, ?_, by rw [Meeting.under, Nat.zero_add]⟩
        exact (ih x (List.mem_of_getElem? hx)).mpr ⟨he, ha⟩

theorem pairwise_meetings (u : TypeTree) : ∀ c : TypeTree,
    (meetings u c).Pairwise fun m n => Precedes m.place n.place := by
  induction u using args_induction with
  | node l as ih =>
    have hargs : ∀ ts : List TypeTree,
        (∀ a ∈ ts, ∀ c, (meetings a c).Pairwise fun m n => Precedes m.place n.place) →
        ∀ i bs, (meetingsFrom i ts bs).Pairwise fun m n => Precedes m.place n.place := by
      intro ts
      induction ts with
      | nil => exact fun _ i bs => by rw [meetingsFrom]; exact .nil
      | cons a ts ihts =>
        intro h i bs
        cases bs with
        | nil => rw [meetingsFrom]; exact .nil
        | cons b bs =>
          rw [meetingsFrom, List.pairwise_append, List.pairwise_map]
          refine ⟨(h a List.mem_cons_self b).imp .cons,
            ihts (fun x hx => h x (List.mem_cons_of_mem a hx)) _ _, ?_⟩
          intro m hm n hn
          obtain ⟨m', -, rfl⟩ := List.mem_map.mp hm
          obtain ⟨j, -, -, n', -, -, -, rfl⟩ := mem_meetingsFrom.mp hn
          exact .rel (by omega)
    rintro ⟨k, bs⟩
    rw [meetings, List.pairwise_cons]
    refine ⟨fun n hn => ?_, hargs as ih 0 bs⟩
    obtain ⟨j, -, -, n', -, -, -, rfl⟩ := mem_meetingsFrom.mp hn
    exact .nil

/-! ### One step -/

def visit (params : List String) (b : Bindings) (m : Meeting) : Except Obstacle Bindings :=
  if params.contains m.expected.label then
    if m.expected.args.isEmpty then bindParameter m.expected.label m.actual b
    else if m.expected.arity ≠ m.actual.arity then .error (.arity m.expected m.actual)
    else bindParameter m.expected.label (leaf m.actual.label) b
  else if m.expected.label ≠ m.actual.label then .error (.mainType m.expected m.actual)
  else if m.expected.arity ≠ m.actual.arity then .error (.arity m.expected m.actual)
  else .ok b

variable {params : List String} {b b' : Bindings} {m : Meeting} {o : Obstacle}

theorem bindParameter_eq_error_iff {p : String} {t : TypeTree} :
    bindParameter p t b = .error o ↔ ∃ x, b.get? p = some x ∧ x ≠ t ∧ .conflict p x t = o := by
  unfold bindParameter
  cases h : b.get? p with
  | none => simp
  | some x =>
    by_cases hx : x = t
    · simp [hx, equal_refl]
    · have hne : equal x t = false := by
        rw [Bool.eq_false_iff, ne_eq, equal_iff]
        exact hx
      simp [hx, hne]

theorem visit_eq_ok_iff : visit params b m = .ok b' ↔
    (m.expected.label ∈ params ∧ (m.expected.args ≠ [] → m.expected.arity = m.actual.arity) ∧
      bindParameter m.expected.label (imposed m.expected m.actual) b = .ok b') ∨
    (m.expected.label ∉ params ∧ m.expected.label = m.actual.label ∧
      m.expected.arity = m.actual.arity ∧ b = b') := by
  by_cases hl : m.expected.label ∈ params
  · by_cases hleaf : m.expected.args = []
    · simp [visit, imposed, hl, hleaf]
    · by_cases harity : m.expected.arity = m.actual.arity <;>
        simp [visit, imposed, hl, hleaf, harity]
  · by_cases hlabel : m.expected.label = m.actual.label
    · by_cases harity : m.expected.arity = m.actual.arity <;>
        simp [visit, hlabel ▸ hl, hlabel, harity]
    · simp [visit, hl, hlabel]

theorem visit_eq_error_iff : visit params b m = .error o ↔
    (m.expected.label ∉ params ∧ m.expected.label ≠ m.actual.label ∧
      .mainType m.expected m.actual = o) ∨
    ((m.expected.label ∉ params ∧ m.expected.label = m.actual.label ∨
        m.expected.label ∈ params ∧ m.expected.args ≠ []) ∧
      m.expected.arity ≠ m.actual.arity ∧ .arity m.expected m.actual = o) ∨
    (m.expected.label ∈ params ∧ (m.expected.args ≠ [] → m.expected.arity = m.actual.arity) ∧
      bindParameter m.expected.label (imposed m.expected m.actual) b = .error o) := by
  by_cases hl : m.expected.label ∈ params
  · by_cases hleaf : m.expected.args = []
    · simp [visit, imposed, hl, hleaf]
    · by_cases harity : m.expected.arity = m.actual.arity <;>
        simp [visit, imposed, hl, hleaf, harity]
  · by_cases hlabel : m.expected.label = m.actual.label
    · by_cases harity : m.expected.arity = m.actual.arity <;>
        simp [visit, hlabel ▸ hl, hlabel, harity]
    · simp [visit, hl, hlabel]

/-- A step adds to the table what the place asks of a parameter. -/
theorem get?_visit (h : visit params b m = .ok b') {p : String} {x : TypeTree} :
    b'.get? p = some x ↔ b.get? p = some x ∨
      p ∈ params ∧ m.expected.label = p ∧ imposed m.expected m.actual = x := by
  rcases visit_eq_ok_iff.mp h with ⟨hl, -, hbind⟩ | ⟨hl, -, -, rfl⟩
  · obtain ⟨hbound, rfl⟩ := bindParameter_eq_ok_iff.mp hbind
    rw [Table.get?_insert]
    by_cases hp : p = m.expected.label
    · subst hp
      rw [if_pos rfl, Option.some.injEq]
      constructor
      · exact fun hx => .inr ⟨hl, rfl, hx⟩
      · rintro (hx | ⟨-, -, hx⟩)
        · exact (hbound x hx).symm
        · exact hx
    · rw [if_neg hp, or_iff_left fun hx => hp hx.2.1.symm]
  · rw [or_iff_left]
    rintro ⟨hp, rfl, -⟩
    exact hl hp

/-! ### The walk -/

theorem visit_node (b : Bindings) (π : List Nat) (l k : String) (as bs : List TypeTree) :
    visit params b ⟨π, .node l as, .node k bs⟩ =
      if params.contains l then
        if as.isEmpty then bindParameter l (.node k bs) b
        else if as.length ≠ bs.length then .error (.arity (.node l as) (.node k bs))
        else bindParameter l (leaf k) b
      else if l ≠ k then .error (.mainType (.node l as) (.node k bs))
      else if as.length ≠ bs.length then .error (.arity (.node l as) (.node k bs))
      else .ok b := rfl

/-- A node is resolved by the step at its place and then its arguments. -/
theorem extend_eq_bind (l k : String) (as bs : List TypeTree) (b : Bindings) :
    extend params (.node l as) (.node k bs) b =
      visit params b ⟨[], .node l as, .node k bs⟩ >>= extendAll params as bs := by
  rw [extend, visit_node]
  by_cases hl : params.contains l
  · rw [if_pos hl, if_pos hl]
    by_cases hleaf : as.isEmpty
    · obtain rfl := List.isEmpty_iff.mp hleaf
      rw [if_pos hleaf, if_pos hleaf]
      cases bindParameter l (.node k bs) b with
      | error o => rfl
      | ok b₁ => rw [ok_bind, extendAll]
    · rw [if_neg hleaf, if_neg hleaf]
      by_cases hlen : as.length ≠ bs.length
      · rw [if_pos hlen, if_pos hlen]
        rfl
      · rw [if_neg hlen, if_neg hlen]
        cases bindParameter l (leaf k) b <;> rfl
  · rw [if_neg hl, if_neg hl]
    by_cases hk : l ≠ k
    · rw [if_pos hk, if_pos hk]
      rfl
    · rw [if_neg hk, if_neg hk]
      by_cases hlen : as.length ≠ bs.length
      · rw [if_pos hlen, if_pos hlen]
        rfl
      · rw [if_neg hlen, if_neg hlen]
        rfl

mutual

/-- Resolution takes one step for each place that both types have. -/
theorem extend_eq_foldlM : ∀ (u c : TypeTree) (b : Bindings),
    extend params u c b = (meetings u c).foldlM (visit params) b
  | .node l as, .node k bs, b => by
    rw [extend_eq_bind, meetings, List.foldlM_cons]
    congr 1
    exact funext (extendAll_eq_foldlM 0 as bs)

theorem extendAll_eq_foldlM : ∀ (i : Nat) (as bs : List TypeTree) (b : Bindings),
    extendAll params as bs b = (meetingsFrom i as bs).foldlM (visit params) b
  | i, a :: as, c :: cs, b => by
    have hfirst :
        ((meetings a c).map (.under i)).foldlM (visit params) b = extend params a c b := by
      rw [List.foldlM_map, extend_eq_foldlM a c b]
      rfl
    rw [extendAll, meetingsFrom, List.foldlM_append, hfirst]
    cases extend params a c b with
    | error o => rfl
    | ok b₁ => exact extendAll_eq_foldlM (i + 1) as cs b₁
  | _, [], _, b => by rw [extendAll, meetingsFrom]; rfl
  | _, _ :: _, [], b => by rw [extendAll, meetingsFrom]; rfl

end

theorem resolve_eq_foldlM (u c : TypeTree) :
    resolve params u c = (meetings u c).foldlM (visit params) ∅ := extend_eq_foldlM u c ∅

/-- After a run the table holds what the places so far ask of the parameters. -/
theorem get?_visits {ms : List Meeting} (h : ms.foldlM (visit params) b = .ok b') {p : String}
    {x : TypeTree} : b'.get? p = some x ↔ b.get? p = some x ∨
      ∃ m ∈ ms, p ∈ params ∧ m.expected.label = p ∧ imposed m.expected m.actual = x := by
  induction ms generalizing b with
  | nil =>
    simp only [List.foldlM_nil, pure, Except.pure, Except.ok.injEq] at h
    simp [h]
  | cons m ms ih =>
    obtain ⟨b₁, hfirst, hrest⟩ := foldlM_cons_eq_ok_iff.mp h
    rw [ih hrest, get?_visit hfirst, or_assoc]
    simp only [List.mem_cons, exists_eq_or_imp]

/-! ### The first obstacle -/

section First

variable {u c : TypeTree} {before after : List Meeting}

theorem ObstacleAt.exists_meeting {π : List Nat} (h : ObstacleAt params u c π o) :
    ∃ n ∈ meetings u c, n.place = π := by
  have hmeet : ∀ {e a}, u.partAt? π = some e → c.partAt? π = some a →
      ∃ n ∈ meetings u c, n.place = π :=
    fun {e a} he ha => ⟨⟨π, e, a⟩, (mem_meetings u).mpr ⟨he, ha⟩, rfl⟩
  cases h with
  | mainType expected actual => exact hmeet expected actual
  | arity expected actual => exact hmeet expected actual
  | conflict _ _ _ second =>
    obtain ⟨e, a, he, ha, -⟩ := second
    exact hmeet he ha

theorem parts_of_split (hsplit : meetings u c = before ++ m :: after) :
    u.partAt? m.place = some m.expected ∧ c.partAt? m.place = some m.actual := by
  rw [← mem_meetings u, hsplit]
  exact List.mem_append_right before List.mem_cons_self

theorem precedes_of_split (hsplit : meetings u c = before ++ m :: after) :
    (∀ n ∈ before, Precedes n.place m.place) ∧ ∀ n ∈ after, Precedes m.place n.place := by
  have hsorted := pairwise_meetings u c
  rw [hsplit, List.pairwise_append, List.pairwise_cons] at hsorted
  exact ⟨fun n hn => hsorted.2.2 n hn m List.mem_cons_self, hsorted.2.1.1⟩

theorem mem_before_of_precedes (hsplit : meetings u c = before ++ m :: after) {n : Meeting}
    (hn : n ∈ meetings u c) (h : Precedes n.place m.place) : n ∈ before := by
  rw [hsplit, List.mem_append, List.mem_cons] at hn
  rcases hn with hn | rfl | hn
  · exact hn
  · exact absurd h (Precedes.irrefl _)
  · exact absurd h ((precedes_of_split hsplit).2 n hn).asymm

theorem obstacleAt_of_visit (hsplit : meetings u c = before ++ m :: after)
    (hrun : before.foldlM (visit params) ∅ = .ok b) (h : visit params b m = .error o) :
    ObstacleAt params u c m.place o := by
  obtain ⟨hexpected, hactual⟩ := parts_of_split hsplit
  rcases visit_eq_error_iff.mp h with ⟨hfixed, hdiffer, rfl⟩ | ⟨hjoined, hdiffer, rfl⟩ |
    ⟨hparam, -, hbind⟩
  · exact .mainType hexpected hactual hfixed hdiffer
  · exact .arity hexpected hactual hjoined hdiffer
  · obtain ⟨x, hx, hdiffer, rfl⟩ := bindParameter_eq_error_iff.mp hbind
    -- The table was empty at first, so an earlier place asked for what it holds.
    rcases (get?_visits hrun).mp hx with hempty | ⟨n, hn, -, hlabel, himposed⟩
    · simp at hempty
    · have hmeet : n ∈ meetings u c := by
        rw [hsplit]
        exact List.mem_append_left _ hn
      obtain ⟨he, ha⟩ := (mem_meetings u).mp hmeet
      exact .conflict hparam ((precedes_of_split hsplit).1 n hn) ⟨_, _, he, ha, hlabel, himposed⟩
        ⟨_, _, hexpected, hactual, rfl, rfl⟩ hdiffer

/-- What an earlier place asks of a parameter is in the table. -/
theorem get?_of_imposes (hsplit : meetings u c = before ++ m :: after)
    (hrun : before.foldlM (visit params) ∅ = .ok b) {π : List Nat} {p : String} {x : TypeTree}
    (hp : p ∈ params) (h : Precedes π m.place) (hx : Imposes u c π p x) : b.get? p = some x := by
  obtain ⟨e, a, he, ha, hlabel, himposed⟩ := hx
  have hmem : ⟨π, e, a⟩ ∈ meetings u c := (mem_meetings u).mpr ⟨he, ha⟩
  rw [get?_visits hrun]
  exact .inr ⟨_, mem_before_of_precedes hsplit hmem h, hp, hlabel, himposed⟩

/-- The step at a place fails with what stands in the way there.  Only a conflict can go unreported,
where the number of arguments is wrong as well. -/
theorem visit_of_obstacleAt (hsplit : meetings u c = before ++ m :: after)
    (hrun : before.foldlM (visit params) ∅ = .ok b) (h : ObstacleAt params u c m.place o) :
    visit params b m = .error o ∨
      (∃ p e a, o = .conflict p e a) ∧ visit params b m = .error (.arity m.expected m.actual) := by
  obtain ⟨hexpected, hactual⟩ := parts_of_split hsplit
  cases h with
  | mainType expected actual fixed differ =>
    obtain rfl := Option.some.inj (hexpected.symm.trans expected)
    obtain rfl := Option.some.inj (hactual.symm.trans actual)
    exact .inl (visit_eq_error_iff.mpr (.inl ⟨fixed, differ, rfl⟩))
  | arity expected actual joined differ =>
    obtain rfl := Option.some.inj (hexpected.symm.trans expected)
    obtain rfl := Option.some.inj (hactual.symm.trans actual)
    exact .inl (visit_eq_error_iff.mpr (.inr (.inl ⟨joined, differ, rfl⟩)))
  | @conflict p x y π₀ param earlier first second differ =>
    obtain ⟨e, a, he, ha, rfl, rfl⟩ := second
    obtain rfl := Option.some.inj (hexpected.symm.trans he)
    obtain rfl := Option.some.inj (hactual.symm.trans ha)
    by_cases hasked : m.expected.args ≠ [] → m.expected.arity = m.actual.arity
    · have hbound := get?_of_imposes hsplit hrun param earlier first
      have hbind := bindParameter_eq_error_iff.mpr ⟨x, hbound, differ, rfl⟩
      exact .inl (visit_eq_error_iff.mpr (.inr (.inr ⟨param, hasked, hbind⟩)))
    · rw [Classical.not_imp] at hasked
      have harity : visit params b m = .error (.arity m.expected m.actual) :=
        visit_eq_error_iff.mpr (.inr (.inl ⟨.inr ⟨param, hasked.1⟩, hasked.2, rfl⟩))
      exact .inr ⟨⟨_, _, _, rfl⟩, harity⟩

/-- Nothing stands in the way at the places that were passed. -/
theorem not_obstacleAt_of_run {rest : List Meeting} (hsplit : meetings u c = before ++ rest)
    (hrun : before.foldlM (visit params) ∅ = .ok b) (hm : m ∈ before) :
    ¬ObstacleAt params u c m.place o := by
  intro h
  obtain ⟨first, last, rfl⟩ := List.append_of_mem hm
  rw [List.append_assoc, List.cons_append] at hsplit
  obtain ⟨b₁, hfirst, hlast⟩ := foldlM_append_eq_ok_iff.mp hrun
  obtain ⟨b₂, hvisit, -⟩ := foldlM_cons_eq_ok_iff.mp hlast
  rcases visit_of_obstacleAt hsplit hfirst h with hfail | ⟨-, hfail⟩ <;>
    · rw [hvisit] at hfail
      cases hfail

end First

/-- Resolution fails with what stands in the way at the first place where something does.  If both
the number of arguments and an earlier binding are in the way there, it is the former. -/
theorem resolve_error_iff_first_obstacle (params : List String) (u c : TypeTree) (o : Obstacle) :
    resolve params u c = .error o ↔
      ∃ π, ObstacleAt params u c π o ∧
        (∀ ρ o', Precedes ρ π → ¬ObstacleAt params u c ρ o') ∧
        ∀ e a, ObstacleAt params u c π (.arity e a) → o = .arity e a := by
  rw [resolve_eq_foldlM]
  constructor
  · intro h
    obtain ⟨before, m, after, b, hsplit, hrun, hfail⟩ := foldlM_eq_error_iff.mp h
    refine ⟨m.place, obstacleAt_of_visit hsplit hrun hfail, ?_, ?_⟩
    · intro ρ o' hρ hobstacle
      obtain ⟨n, hn, rfl⟩ := hobstacle.exists_meeting
      exact not_obstacleAt_of_run hsplit hrun (mem_before_of_precedes hsplit hn hρ) hobstacle
    · intro e a harity
      rcases visit_of_obstacleAt hsplit hrun harity with hvisit | ⟨⟨p, x, y, hconflict⟩, -⟩
      · rw [hfail] at hvisit
        exact Except.error.inj hvisit
      · cases hconflict
  · rintro ⟨π, hobstacle, hfirst, harity⟩
    obtain ⟨n, hn, rfl⟩ := hobstacle.exists_meeting
    cases hrun : (meetings u c).foldlM (visit params) ∅ with
    | ok b => exact absurd hobstacle (not_obstacleAt_of_run (List.append_nil _).symm hrun hn)
    | error o' =>
      obtain ⟨before, m, after, b, hsplit, hrun, hfail⟩ := foldlM_eq_error_iff.mp hrun
      have hreported := obstacleAt_of_visit hsplit hrun hfail
      -- The walk can have stopped neither behind the place nor before it.
      rw [hsplit, List.mem_append, List.mem_cons] at hn
      rcases hn with hn | rfl | hn
      · exact absurd hobstacle (not_obstacleAt_of_run hsplit hrun hn)
      · rcases visit_of_obstacleAt hsplit hrun hobstacle with hvisit | ⟨⟨p, x, y, rfl⟩, hvisit⟩
        · rw [← hfail, hvisit]
        · cases harity _ _ (obstacleAt_of_visit hsplit hrun hvisit)
      · exact absurd hreported (hfirst m.place o' ((precedes_of_split hsplit).2 n hn))

-- At its second place `T` has too many arguments, and would have to be `list` after `str`.
example : resolve ["T"] (.node "pair" [leaf "T", .node "T" [leaf "int"]])
    (.node "pair" [leaf "str", leaf "list"]) =
      .error (.arity (.node "T" [leaf "int"]) (leaf "list")) := by rfl

/-- Numbers of arguments may differ below equal labels without being in the way: a parameter without
arguments takes a type that has its own label.  What is reported here stands behind such a place,
and at no other. -/
theorem resolve_passes_bare_parameter :
    let u : TypeTree := .node "pair" [leaf "T", leaf "int"]
    let c : TypeTree := .node "pair" [.node "T" [leaf "int"], leaf "str"]
    resolve ["T"] u c = .error (.mainType (leaf "int") (leaf "str")) ∧
    (∀ π, u.partAt? π = some (leaf "int") → π = [1]) ∧
    Precedes [0] [1] ∧
    ∃ e a, u.partAt? [0] = some e ∧ c.partAt? [0] = some a ∧ e.label = a.label ∧
      e.arity ≠ a.arity := by
  intro u c
  refine ⟨rfl, ?_, .rel Nat.zero_lt_one, leaf "T", .node "T" [leaf "int"], rfl, rfl, rfl,
    by decide⟩
  have hleaf : ∀ l π s, partAt? (leaf l) π = some s → π = [] ∧ s = leaf l := by
    intro l π s h
    cases π with
    | nil => exact ⟨rfl, (Option.some.inj h).symm⟩
    | cons i π =>
      obtain ⟨a, ha, -⟩ := partAt?_cons_eq_some_iff.mp h
      simp at ha
  intro π h
  match π with
  | [] => exact absurd (Option.some.inj h) (by decide)
  | 0 :: π => exact absurd (hleaf "T" π _ h).2 (by decide)
  | 1 :: π => rw [(hleaf "int" π _ h).1]
  | (i + 2) :: π =>
    obtain ⟨a, ha, -⟩ := partAt?_cons_eq_some_iff.mp h
    simp at ha

end TypeTree
end Patchbay
