import Patchbay.Command.Run
import Patchbay.Proofs.Except
import Patchbay.Proofs.Path
import Patchbay.Proofs.TypeTree.Document

/-!
Overrides that lie apart do not touch each other.  Paths lie apart if neither leads on from the
other; putting a value at a path makes it what the path reaches, and leaves what all paths apart
from it reach (`reach?_assign`).  So an item keeps its value through all later items whose paths lie
apart from its own, whatever stood there before it and whatever the texts of values mean
(`ofItems_keeps_apart`).
-/

namespace Patchbay

/-! ### Fields -/

namespace Value

theorem sameKey_str_iff {v : Value} {name : String} :
    sameKey v (.str name) = true ↔ v = .str name := by
  cases v <;> simp [sameKey, whole?]

theorem named?_cons (k : String) (j y : Value) (rest : List (Value × Value)) :
    named? k ((j, y) :: rest) = if sameKey j (.str k) then some y else named? k rest := by
  rw [named?, findField?, List.find?_cons]
  cases sameKey j (.str k) <;> rfl

/-- Other names are not touched, whatever the keys are that are not names. -/
theorem named?_putField (k name : String) (x : Value) (fields : List (Value × Value)) :
    named? k (putField (.str name) x fields) = if k = name then some x else named? k fields := by
  have hkey : sameKey (.str name) (.str k) = true ↔ k = name := by
    rw [sameKey_str, beq_iff_eq, eq_comm]
  induction fields with
  | nil =>
    rw [putField, named?_cons]
    simp only [hkey]
  | cons e rest ih =>
    obtain ⟨j, y⟩ := e
    rw [putField]
    by_cases hj : sameKey j (.str name) = true
    · obtain rfl := sameKey_str_iff.mp hj
      rw [if_pos hj, named?_cons, named?_cons]
      simp only [hkey]
      by_cases hk : k = name <;> simp [hk]
    · rw [if_neg hj, named?_cons, named?_cons, ih]
      by_cases hk : k = name
      · subst hk
        simp [hj]
      · simp [hk]

/-- The value that names lead to, each through the dictionary that the one before it reaches. -/
def reach? : List String → Value → Option Value
  | [], v => some v
  | name :: rest, .dict fields => (named? name fields).bind (reach? rest)
  | _ :: _, _ => none

variable {name k : String} {rest : List String}

theorem reach?_putField_self (name : String) (rest : List String) (x : Value)
    (fields : List (Value × Value)) :
    reach? (name :: rest) (.dict (putField (.str name) x fields)) = reach? rest x := by
  rw [reach?, named?_putField, if_pos rfl, Option.bind_some]

theorem reach?_putField_of_ne (h : k ≠ name) (rest : List String) (x : Value)
    (fields : List (Value × Value)) :
    reach? (k :: rest) (.dict (putField (.str name) x fields)) =
      reach? (k :: rest) (.dict fields) := by
  rw [reach?, named?_putField, if_neg h, reach?]

/-- Nothing is reached through nothing. -/
theorem reach?_empty (h : rest ≠ []) : reach? rest (.dict []) = none := by
  cases rest with
  | nil => exact absurd rfl h
  | cons => rfl

end Value

namespace Override

open Value

/-! ### Paths that lie apart -/

/-- Neither path is the other, nor leads on from it. -/
def Apart (p q : List String) : Prop := ¬p <+: q ∧ ¬q <+: p

instance (p q : List String) : Decidable (Apart p q) := inferInstanceAs (Decidable (_ ∧ _))

theorem Apart.ne_nil {p q : List String} (h : Apart p q) : q ≠ [] := by
  rintro rfl
  exact h.2 List.nil_prefix

theorem Apart.of_cons {name : String} {p q : List String} (h : Apart (name :: p) (name :: q)) :
    Apart p q := by
  rw [Apart, List.prefix_cons_inj, List.prefix_cons_inj] at h
  exact h

theorem Apart.symm {p q : List String} (h : Apart p q) : Apart q p := ⟨h.2, h.1⟩

/-! ### One value -/

variable {key : String} {value : Except Fault Value} {fields fields' : List (Value × Value)}

/-- A path of two names or more goes through a dictionary, which is a new one if there is none. -/
theorem assign_through {name next : String} {rest : List String}
    (h : assign key value (name :: next :: rest) fields = .ok fields') :
    ∃ inner inner', assign key value (next :: rest) inner = .ok inner' ∧
      fields' = putField (.str name) (.dict inner') fields ∧
      ∀ q, q ≠ [] → reach? (name :: q) (.dict fields) = reach? q (.dict inner) := by
  rw [assign] at h
  · split at h
    · next hnone =>
      obtain ⟨inner', hinner, hput⟩ := bind_eq_ok_iff.mp h
      refine ⟨[], inner', hinner, ?_, fun q hq => ?_⟩
      · injection hput with hput
        exact hput.symm
      · rw [reach?, hnone, Option.bind_none, reach?_empty hq]
    · next inner hsome =>
      obtain ⟨inner', hinner, hput⟩ := bind_eq_ok_iff.mp h
      refine ⟨inner, inner', hinner, ?_, fun q _ => ?_⟩
      · injection hput with hput
        exact hput.symm
      · rw [reach?, hsome, Option.bind_some]
    · cases h
  · simp

/-- A value that was put at a path is what the path reaches, and paths apart from it reach what they
did.  The induction is on the path; the dictionary that its first name leads to is what the rest of
it is followed in. -/
theorem reach?_assign {path : List String} (h : assign key value path fields = .ok fields') :
    (∃ v, value = .ok v ∧ reach? path (.dict fields') = some v) ∧
    ∀ q, Apart path q → reach? q (.dict fields') = reach? q (.dict fields) := by
  induction path generalizing fields fields' with
  | nil => cases h
  | cons name rest ih =>
    cases rest with
    | nil =>
      obtain ⟨v, hv, rfl⟩ := map_eq_ok_iff.mp h
      refine ⟨⟨v, hv, reach?_putField_self name [] v fields⟩, fun q hq => ?_⟩
      obtain ⟨k, q, rfl⟩ := List.exists_cons_of_ne_nil hq.ne_nil
      have hk : k ≠ name := by
        rintro rfl
        exact hq.of_cons.symm.ne_nil rfl
      exact reach?_putField_of_ne hk q v fields
    | cons next rest =>
      obtain ⟨inner, inner', hinner, rfl, hthrough⟩ := assign_through h
      obtain ⟨⟨v, hv, hreach⟩, hframe⟩ := ih hinner
      refine ⟨⟨v, hv, ?_⟩, fun q hq => ?_⟩
      · rw [reach?_putField_self, hreach]
      · obtain ⟨k, q, rfl⟩ := List.exists_cons_of_ne_nil hq.ne_nil
        by_cases hk : k = name
        · subst hk
          have hrest := hq.of_cons
          rw [reach?_putField_self, hframe q hrest, hthrough q hrest.ne_nil]
        · exact reach?_putField_of_ne hk q _ fields

/-! ### Items -/

/-- The names before the first equals sign of an item, with dots between them. -/
def pathOf (item : String) : List String :=
  (((item.toList.takeWhile (· ≠ '=')).splitOn '.').filter (· ≠ [])).map String.ofList

def textOf (item : String) : String :=
  String.ofList ((item.toList.dropWhile (· ≠ '=')).drop 1)

theorem split?_eq_some {cs k v : List Char} (h : split? cs = some (k, v)) :
    k = cs.takeWhile (· ≠ '=') ∧ v = (cs.dropWhile (· ≠ '=')).drop 1 := by
  induction cs generalizing k with
  | nil => cases h
  | cons c rest ih =>
    rw [split?] at h
    by_cases hc : c = '='
    · rw [if_pos hc, Option.some.injEq, Prod.mk.injEq] at h
      simp [hc, ← h.1, ← h.2]
    · rw [if_neg hc, Option.map_eq_some_iff] at h
      obtain ⟨⟨k', v'⟩, hrest, hcons⟩ := h
      obtain ⟨rfl, rfl⟩ := Prod.mk.inj hcons
      obtain ⟨hk, hv⟩ := ih hrest
      simp [hc, hk, hv]

theorem names_eq (key : List Char) :
    names key = ((key.splitOn '.').filter (· ≠ [])).map String.ofList := by
  rw [names, Path.cut_eq_splitOn]
  congr 2
  funext piece
  cases piece <;> rfl

variable {coerce : String → Except Fault Value} {item : String}

theorem assign_of_add (h : add coerce fields item = .ok fields') :
    ∃ key, assign key (coerce (textOf item)) (pathOf item) fields = .ok fields' := by
  rw [add] at h
  split at h
  · cases h
  · next key value hsplit =>
    obtain ⟨rfl, rfl⟩ := split?_eq_some hsplit
    rw [names_eq] at h
    exact ⟨_, h⟩

theorem reach?_add (h : add coerce fields item = .ok fields') :
    (∃ v, coerce (textOf item) = .ok v ∧ reach? (pathOf item) (.dict fields') = some v) ∧
    ∀ q, Apart (pathOf item) q → reach? q (.dict fields') = reach? q (.dict fields) := by
  obtain ⟨key, hassign⟩ := assign_of_add h
  exact reach?_assign hassign

/-- What a path reaches is kept by all items that lie apart from it. -/
theorem reach?_addAll {items : List String} {path : List String}
    (h : items.foldlM (add coerce) fields = .ok fields')
    (hapart : ∀ item ∈ items, Apart path (pathOf item)) :
    reach? path (.dict fields') = reach? path (.dict fields) := by
  induction items generalizing fields with
  | nil =>
    obtain rfl : fields = fields' := by injection h
    rfl
  | cons item items ih =>
    obtain ⟨hitem, hitems⟩ := List.forall_mem_cons.mp hapart
    obtain ⟨fields₁, hadd, hrest⟩ := foldlM_cons_eq_ok_iff.mp h
    rw [ih hrest hitems, (reach?_add hadd).2 path hitem.symm]

/-- An item whose path lies apart from those of all later items keeps its value to the end. -/
theorem ofItems_keeps_apart (coerce : String → Except Fault Value) (before after : List String)
    (item : String) (fields : List (Value × Value))
    (h : ofItems coerce (before ++ item :: after) = .ok fields)
    (hafter : ∀ later ∈ after, Apart (pathOf item) (pathOf later)) :
    ∃ v, coerce (textOf item) = .ok v ∧ reach? (pathOf item) (.dict fields) = some v := by
  obtain ⟨fields₁, -, hrun⟩ := foldlM_append_eq_ok_iff.mp h
  obtain ⟨fields₂, hadd, hrest⟩ := foldlM_cons_eq_ok_iff.mp hrun
  obtain ⟨v, hv, hreach⟩ := (reach?_add hadd).1
  exact ⟨v, hv, by rw [reach?_addAll hrest hafter, hreach]⟩

/-- The item goes into a dictionary that an earlier literal brought, and later ones go beside it. -/
theorem ofItems_keeps_apart_literal :
    let before := ["a.b={1: 0}", "d=1"]
    let item := "a.b.c=x"
    let after := ["a.b.e=2", "a..f=[3]", "d=4"]
    (∀ later ∈ after, Apart (pathOf item) (pathOf later)) ∧
    ∃ fields, ofItems Command.overrideValue (before ++ item :: after) = .ok fields ∧
      ∃ v, Command.overrideValue (textOf item) = .ok v ∧
        reach? (pathOf item) (.dict fields) = some v := by
  intro before item after
  have hafter : ∀ later ∈ after, Apart (pathOf item) (pathOf later) := by decide +kernel
  have hsome : (ofItems Command.overrideValue (before ++ item :: after)).toOption.isSome = true :=
    by decide +kernel
  obtain ⟨fields, hfields⟩ := Option.isSome_iff_exists.mp hsome
  have h := toOption_eq_some_iff.mp hfields
  exact ⟨hafter, fields, h,
    ofItems_keeps_apart Command.overrideValue before after item fields h hafter⟩

end Override
end Patchbay
