/-!
Tables: finite maps from names that remember the order in which names were first entered.
Entering a name again keeps its place and replaces its value.
-/

namespace Patchbay

universe u v

/-- Entries in the order of their first entering, one for each name. -/
structure Table (α : Type u) where
  entries : List (String × α)
  distinct : (entries.map Prod.fst).Nodup

namespace Table

variable {α : Type u} {β : Type v}

theorem ext {s t : Table α} (h : s.entries = t.entries) : s = t := by
  cases s; cases t; cases h; rfl

/-! ### Entries -/

/-- Replace the value of `k` where it stands, or add it at the end. -/
def put (k : String) (x : α) : List (String × α) → List (String × α)
  | [] => [(k, x)]
  | (j, y) :: rest => if j = k then (j, x) :: rest else (j, y) :: put k x rest

theorem keys_put (k : String) (x : α) (l : List (String × α)) :
    (put k x l).map Prod.fst =
      if k ∈ l.map Prod.fst then l.map Prod.fst else l.map Prod.fst ++ [k] := by
  induction l with
  | nil => simp [put]
  | cons e rest ih =>
    obtain ⟨j, y⟩ := e
    by_cases h : j = k
    · simp [put, h]
    · have h' : k ≠ j := fun e => h e.symm
      simp only [put, if_neg h, List.map_cons, ih, List.mem_cons, h', false_or]
      split <;> simp

theorem nodup_put {k : String} {x : α} {l : List (String × α)}
    (h : (l.map Prod.fst).Nodup) : ((put k x l).map Prod.fst).Nodup := by
  rw [keys_put]
  split
  · exact h
  · next absent =>
    rw [List.nodup_append]
    refine ⟨h, by simp, fun a ha b hb => ?_⟩
    simp only [List.mem_singleton] at hb
    exact fun e => absent (hb ▸ e ▸ ha)

/-! ### Tables -/

def empty : Table α := ⟨[], List.nodup_nil⟩

instance : EmptyCollection (Table α) := ⟨empty⟩

instance : Inhabited (Table α) := ⟨empty⟩

def keys (t : Table α) : List String := t.entries.map Prod.fst

def values (t : Table α) : List α := t.entries.map Prod.snd

def isEmpty (t : Table α) : Bool := t.entries.isEmpty

def get? (t : Table α) (k : String) : Option α := t.entries.lookup k

def contains (t : Table α) (k : String) : Bool := (t.get? k).isSome

def insert (t : Table α) (k : String) (x : α) : Table α := ⟨put k x t.entries, nodup_put t.distinct⟩

def filterKeys (t : Table α) (p : String → Bool) : Table α :=
  ⟨t.entries.filter fun e => p e.1, by
    have sub : ((t.entries.filter fun e => p e.1).map Prod.fst).Sublist (t.entries.map Prod.fst) :=
      List.filter_sublist.map _
    exact sub.nodup t.distinct⟩

def erase (t : Table α) (k : String) : Table α := t.filterKeys (· != k)

/-- Enter all entries of `s` into `t`, so that the values of `s` win. -/
def union (t s : Table α) : Table α := s.entries.foldl (fun r e => r.insert e.1 e.2) t

def ofList (l : List (String × α)) : Table α := l.foldl (fun r e => r.insert e.1 e.2) empty

def map (f : α → β) (t : Table α) : Table β :=
  ⟨t.entries.map fun e => (e.1, f e.2), by
    simpa [List.map_map, Function.comp_def] using t.distinct⟩

end Table
end Patchbay
