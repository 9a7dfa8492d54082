/-!
Type expressions as trees: a label with generic arguments.
-/

namespace Patchbay

/-- A type: a label and its generic arguments. -/
inductive TypeTree where
  | node (label : String) (args : List TypeTree)
deriving Inhabited, Repr

namespace TypeTree

/-- The label that stands for any type.  It takes no arguments. -/
def wildcard : String := "*"

def leaf (label : String) : TypeTree := .node label []

def label : TypeTree → String
  | .node l _ => l

def args : TypeTree → List TypeTree
  | .node _ as => as

def arity (t : TypeTree) : Nat := t.args.length

def isLeaf (t : TypeTree) : Bool := t.args.isEmpty

/-! ### Equality -/

mutual

/-- Equal labels, and equal arguments in the same order. -/
def equal : TypeTree → TypeTree → Bool
  | .node l as, .node m bs => l == m && equalAll as bs

def equalAll : List TypeTree → List TypeTree → Bool
  | [], [] => true
  | a :: as, b :: bs => equal a b && equalAll as bs
  | [], _ :: _ => false
  | _ :: _, [] => false

end

mutual

theorem eq_of_equal : ∀ {s t : TypeTree}, equal s t = true → s = t
  | .node l as, .node m bs, h => by
    simp only [equal, Bool.and_eq_true, beq_iff_eq] at h
    rw [h.1, eq_of_equalAll h.2]

theorem eq_of_equalAll : ∀ {as bs : List TypeTree}, equalAll as bs = true → as = bs
  | [], [], _ => rfl
  | a :: as, b :: bs, h => by
    simp only [equalAll, Bool.and_eq_true] at h
    rw [eq_of_equal h.1, eq_of_equalAll h.2]
  | [], _ :: _, h => by simp [equalAll] at h
  | _ :: _, [], h => by simp [equalAll] at h

end

mutual

theorem equal_refl : ∀ t : TypeTree, equal t t = true
  | .node l as => by simp [equal, equalAll_refl as]

theorem equalAll_refl : ∀ as : List TypeTree, equalAll as as = true
  | [] => rfl
  | a :: as => by simp [equalAll, equal_refl a, equalAll_refl as]

end

theorem equal_iff {s t : TypeTree} : equal s t = true ↔ s = t :=
  ⟨eq_of_equal, fun h => h ▸ equal_refl s⟩

instance : DecidableEq TypeTree := fun _ _ => decidable_of_iff _ equal_iff

/-! ### The wildcard -/

mutual

/-- Equality in which a wildcard on either side agrees with anything. -/
def agrees : TypeTree → TypeTree → Bool
  | .node l as, .node m bs =>
    l == wildcard || m == wildcard || (l == m && agreesAll as bs)

/-- Lists of different lengths do not agree. -/
def agreesAll : List TypeTree → List TypeTree → Bool
  | [], [] => true
  | a :: as, b :: bs => agrees a b && agreesAll as bs
  | [], _ :: _ => false
  | _ :: _, [] => false

end

mutual

/-- No wildcard in the tree has arguments. -/
def Proper : TypeTree → Prop
  | .node l as => (l = wildcard → as = []) ∧ ProperAll as

def ProperAll : List TypeTree → Prop
  | [] => True
  | a :: as => Proper a ∧ ProperAll as

end

end TypeTree
end Patchbay
