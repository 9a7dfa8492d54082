import Mathlib.Data.List.Forall2

/-!
Steps that may fail, taken for every item of a list.
-/

namespace Patchbay

universe u v w

variable {ε : Type u} {α : Type v} {β : Type w} {f : α → Except ε β}

@[simp]
theorem ok_bind {γ : Type v} (a : α) (g : α → Except ε γ) : (Except.ok a >>= g) = g a := rfl

@[simp]
theorem mapError_ok {ε' : Type w} (a : α) (g : ε → ε') :
    (Except.ok a : Except ε α).mapError g = .ok a := rfl

@[simp]
theorem mapError_error {ε' : Type w} (e : ε) (g : ε → ε') :
    (Except.error e : Except ε α).mapError g = .error (g e) := rfl

theorem bind_eq_ok_iff {γ : Type v} {x : Except ε α} {g : α → Except ε γ} {c : γ} :
    x >>= g = .ok c ↔ ∃ a, x = .ok a ∧ g a = .ok c := by
  cases x <;> simp [bind, Except.bind]

theorem map_eq_ok_iff {x : Except ε α} {g : α → β} {b : β} :
    x.map g = .ok b ↔ ∃ a, x = .ok a ∧ g a = b := by
  cases x <;> simp [Except.map]

theorem toOption_eq_some_iff {x : Except ε α} {a : α} : x.toOption = some a ↔ x = .ok a := by
  cases x <;> simp [Except.toOption]

theorem mapM_cons_eq_ok_iff {a : α} {l : List α} {r : List β} :
    (a :: l).mapM f = .ok r ↔ ∃ b rest, f a = .ok b ∧ l.mapM f = .ok rest ∧ r = b :: rest := by
  rw [List.mapM_cons]
  cases ha : f a with
  | error e => simp [bind, Except.bind]
  | ok b =>
    cases hl : l.mapM f with
    | error e => simp [bind, Except.bind]
    | ok rest => simp [bind, Except.bind, pure, Except.pure, eq_comm]

theorem mapM_eq_ok_iff {l : List α} {r : List β} :
    l.mapM f = .ok r ↔ List.Forall₂ (fun a b => f a = .ok b) l r := by
  induction l generalizing r with
  | nil => simp [pure, Except.pure, eq_comm]
  | cons a l ih =>
    rw [mapM_cons_eq_ok_iff, List.forall₂_cons_left_iff]
    simp only [ih]

theorem mapM_map_eq_ok {γ : Type v} {g : γ → α} {h : γ → β} {l : List γ}
    (hl : ∀ c ∈ l, f (g c) = .ok (h c)) : (l.map g).mapM f = .ok (l.map h) := by
  induction l with
  | nil => rfl
  | cons c l ih =>
    rw [List.map_cons, mapM_cons_eq_ok_iff]
    exact ⟨h c, l.map h, hl c List.mem_cons_self,
      ih fun x hx => hl x (List.mem_cons_of_mem c hx), rfl⟩

theorem exists_ok_of_mapM {l : List α} {r : List β} (h : l.mapM f = .ok r) {a : α} (ha : a ∈ l) :
    ∃ b ∈ r, f a = .ok b := by
  have hall := mapM_eq_ok_iff.mp h
  clear h
  induction hall with
  | nil => cases ha
  | cons hb _ ih =>
    rcases List.mem_cons.mp ha with rfl | ha
    · exact ⟨_, List.mem_cons_self, hb⟩
    · obtain ⟨b, hmem, hok⟩ := ih ha
      exact ⟨b, List.mem_cons_of_mem _ hmem, hok⟩

theorem exists_item_of_mapM {l : List α} {r : List β} (h : l.mapM f = .ok r) {b : β} (hb : b ∈ r) :
    ∃ a ∈ l, f a = .ok b := by
  have hall := mapM_eq_ok_iff.mp h
  clear h
  induction hall with
  | nil => cases hb
  | cons ha _ ih =>
    rcases List.mem_cons.mp hb with rfl | hb
    · exact ⟨_, List.mem_cons_self, ha⟩
    · obtain ⟨a, hmem, hok⟩ := ih hb
      exact ⟨a, List.mem_cons_of_mem _ hmem, hok⟩

theorem mapM_cons_eq_error_iff {a : α} {l : List α} {e : ε} :
    (a :: l).mapM f = .error e ↔ f a = .error e ∨ (∃ b, f a = .ok b) ∧ l.mapM f = .error e := by
  rw [List.mapM_cons]
  cases ha : f a with
  | error e' => simp [bind, Except.bind]
  | ok b => cases hl : l.mapM f <;> simp [bind, Except.bind, pure, Except.pure]

/-- The first item that fails is what a list fails with. -/
theorem mapM_eq_error_iff {l : List α} {e : ε} :
    l.mapM f = .error e ↔ ∃ before a after, l = before ++ a :: after ∧
      (∀ b ∈ before, ∃ c, f b = .ok c) ∧ f a = .error e := by
  induction l with
  | nil => simp [pure, Except.pure]
  | cons a l ih =>
    rw [mapM_cons_eq_error_iff, ih]
    constructor
    · rintro (ha | ⟨ha, before, c, after, rfl, hbefore, hc⟩)
      · exact ⟨[], a, l, rfl, by simp, ha⟩
      · exact ⟨a :: before, c, after, rfl, List.forall_mem_cons.mpr ⟨ha, hbefore⟩, hc⟩
    · rintro ⟨before, c, after, hl, hbefore, hc⟩
      cases before with
      | nil =>
        obtain ⟨rfl, rfl⟩ := List.cons.inj hl
        exact .inl hc
      | cons d before =>
        obtain ⟨rfl, rfl⟩ := List.cons.inj hl
        obtain ⟨ha, hrest⟩ := List.forall_mem_cons.mp hbefore
        exact .inr ⟨ha, before, c, after, rfl, hrest, hc⟩

theorem exists_error_of_mapM {l : List α} {e : ε} (h : l.mapM f = .error e) :
    ∃ a ∈ l, f a = .error e := by
  obtain ⟨before, a, after, rfl, -, ha⟩ := mapM_eq_error_iff.mp h
  exact ⟨a, by simp, ha⟩

theorem exists_mapM_ok {l : List α} (h : ∀ a ∈ l, ∃ b, f a = .ok b) : ∃ r, l.mapM f = .ok r := by
  cases hl : l.mapM f with
  | ok r => exact ⟨r, rfl⟩
  | error e =>
    obtain ⟨a, ha, hfail⟩ := exists_error_of_mapM hl
    obtain ⟨b, hok⟩ := h a ha
    rw [hfail] at hok
    cases hok

/-! ### Steps on a state -/

section Fold

variable {γ : Type v} {step : γ → α → Except ε γ} {s s' : γ}

theorem foldlM_cons_eq_ok_iff {a : α} {l : List α} :
    (a :: l).foldlM step s = .ok s' ↔ ∃ s₁, step s a = .ok s₁ ∧ l.foldlM step s₁ = .ok s' := by
  rw [List.foldlM_cons]
  cases step s a <;> simp [bind, Except.bind]

theorem foldlM_append_eq_ok_iff {l l' : List α} : (l ++ l').foldlM step s = .ok s' ↔
    ∃ s₁, l.foldlM step s = .ok s₁ ∧ l'.foldlM step s₁ = .ok s' := by
  rw [List.foldlM_append]
  cases l.foldlM step s <;> simp [bind, Except.bind]

/-- The first step that fails is what a run fails with. -/
theorem foldlM_eq_error_iff {l : List α} {e : ε} :
    l.foldlM step s = .error e ↔ ∃ before a after s₁, l = before ++ a :: after ∧
      before.foldlM step s = .ok s₁ ∧ step s₁ a = .error e := by
  induction l generalizing s with
  | nil => simp [pure, Except.pure]
  | cons a l ih =>
    constructor
    · intro h
      rw [List.foldlM_cons] at h
      cases ha : step s a with
      | error f =>
        simp only [ha, bind, Except.bind] at h
        exact ⟨[], a, l, s, rfl, rfl, ha.trans h⟩
      | ok s₁ =>
        simp only [ha, ok_bind] at h
        obtain ⟨before, c, after, s₂, rfl, hbefore, hc⟩ := ih.mp h
        exact ⟨a :: before, c, after, s₂, rfl, foldlM_cons_eq_ok_iff.mpr ⟨s₁, ha, hbefore⟩, hc⟩
    · rintro ⟨before, c, after, s₂, hl, hbefore, hc⟩
      rw [hl, List.foldlM_append, hbefore, ok_bind, List.foldlM_cons, hc]
      rfl

end Fold

/-! ### Faults of a step -/

/-- Whatever a step fails with, `P` holds of it. -/
def FaultsIn (P : ε → Prop) (x : Except ε α) : Prop := ∀ e, x = .error e → P e

namespace FaultsIn

variable {P Q : ε → Prop} {x : Except ε α}

theorem ok (a : α) : FaultsIn P (.ok a) := fun _ h => by cases h

theorem error {e : ε} (h : P e) : FaultsIn P (.error e : Except ε α) := by
  intro e' he
  cases he
  exact h

theorem mono (h : FaultsIn P x) (himp : ∀ e, P e → Q e) : FaultsIn Q x :=
  fun e he => himp e (h e he)

theorem bind {γ : Type v} {g : α → Except ε γ} (hx : FaultsIn P x)
    (hg : ∀ a, x = .ok a → FaultsIn P (g a)) : FaultsIn P (x >>= g) := by
  cases x with
  | error e => exact error (hx e rfl)
  | ok a => exact hg a rfl

theorem map {g : α → β} (h : FaultsIn P x) : FaultsIn P (x.map g) := by
  cases x with
  | error e => exact error (h e rfl)
  | ok a => exact ok (g a)

theorem mapError {ε' : Type w} {P : ε' → Prop} {g : ε → ε'} (h : FaultsIn (fun e => P (g e)) x) :
    FaultsIn P (x.mapError g) := by
  cases x with
  | error e => exact error (h e rfl)
  | ok a => exact ok a

theorem mapM {l : List α} (h : ∀ a ∈ l, FaultsIn P (f a)) : FaultsIn P (l.mapM f) := by
  intro e he
  obtain ⟨a, ha, hfault⟩ := exists_error_of_mapM he
  exact h a ha e hfault

end FaultsIn

/-! ### Results of a step -/

/-- Whatever a step gives, `P` holds of it. -/
def ResultsIn (P : α → Prop) (x : Except ε α) : Prop := ∀ a, x = .ok a → P a

namespace ResultsIn

variable {P : α → Prop}

theorem ok {a : α} (h : P a) : ResultsIn P (.ok a : Except ε α) := by
  intro b hb
  cases hb
  exact h

theorem error (e : ε) : ResultsIn P (.error e : Except ε α) := fun _ h => by cases h

theorem bind {γ : Type v} {P : γ → Prop} {x : Except ε α} {g : α → Except ε γ}
    (hg : ∀ a, x = .ok a → ResultsIn P (g a)) : ResultsIn P (x >>= g) := by
  cases x with
  | error e => exact error e
  | ok a => exact hg a rfl

end ResultsIn

end Patchbay
