import Patchbay.Metrics

/-!
What metered steps give and record.  `Gives x a samples` says that `x` ends as `a` and records
`samples` in order, whatever was recorded before: so a step can be read without the registry that it
runs on, and the samples of steps in a row are appended.
-/

namespace Patchbay
namespace Registry

/-- The registry with more samples, the first one first. -/
def recordAll (r : Registry) (samples : List Sample) : Registry := samples.foldl record r

theorem recordAll_append (r : Registry) (xs ys : List Sample) :
    r.recordAll (xs ++ ys) = (r.recordAll xs).recordAll ys := List.foldl_append

end Registry

namespace Metered

variable {α β : Type} {x : Metered α} {f : α → Metered β} {xs ys : List Sample}

theorem on_bind (x : Metered α) (f : α → Metered β) (r : Registry) :
    (x >>= f).on r = match x.on r with
      | (.ok a, r') => (f a).on r'
      | (.error e, r') => (.error e, r') := by
  unfold on ExceptT.run StateT.run Id.run
  simp only [bind, ExceptT.bind, ExceptT.mk, ExceptT.bindCont, StateT.bind]
  cases x r with
  | mk result r' => cases result <;> rfl

theorem registry_bind_pure (x : Metered α) (g : α → β) (r : Registry) :
    ((x >>= fun a => pure (g a)).on r).2 = (x.on r).2 := by
  rw [on_bind]
  cases x.on r with
  | mk result r' => cases result <;> rfl

def Gives (x : Metered α) (a : Except Fault α) (samples : List Sample) : Prop :=
  ∀ r, x.on r = (a, r.recordAll samples)

namespace Gives

theorem pure (a : α) : Gives (Pure.pure a) (.ok a) [] := fun _ => rfl

/-- What cannot record gives what it is. -/
theorem lift (a : Except Fault α) : Gives (liftM a) a [] := fun _ => rfl

theorem emit (sample : Sample) : Gives (Metered.emit sample) (.ok ()) [sample] := fun _ => rfl

theorem bind {a : α} {b : Except Fault β} (hx : Gives x (.ok a) xs) (hf : Gives (f a) b ys) :
    Gives (x >>= f) b (xs ++ ys) := by
  intro r
  rw [on_bind, hx r, Registry.recordAll_append]
  exact hf _

theorem bind_error {e : Fault} (hx : Gives x (.error e) xs) : Gives (x >>= f) (.error e) xs := by
  intro r
  rw [on_bind, hx r]

theorem bind_pure {a : Except Fault α} (hx : Gives x a xs) (g : α → β) :
    Gives (x >>= fun a => Pure.pure (g a)) (a.map g) xs := by
  cases a with
  | error e => exact hx.bind_error
  | ok a =>
    rw [← List.append_nil xs]
    exact hx.bind (.pure (g a))

theorem result_eq {a : Except Fault α} (h : Gives x a xs) : x.result = a :=
  congrArg Prod.fst (h .empty)

end Gives

theorem gives_pure_iff {a : α} {b : Except Fault α} :
    Gives (Pure.pure a) b [] ↔ .ok a = b := by
  constructor
  · intro h
    exact h.result_eq
  · rintro rfl
    exact .pure a

end Metered
end Patchbay
