import Patchbay.Path

/-!
A path is read back from its text.  Reading drops the parts that do not count, so the parts that
are left hold no separator and none of them is idle; texts of such paths are cut where their parts
were joined.
-/

namespace Patchbay
namespace Path

/-! ### Cutting -/

theorem cut_eq_splitOn (sep : Char) (s : List Char) : cut sep s = s.splitOn sep := by
  induction s with
  | nil => rfl
  | cons c rest ih =>
    rw [List.splitOn_cons_eq_if_modifyHead, cut, ih]
    by_cases hc : c = sep
    · simp [hc]
    · rw [if_neg hc, if_neg (by simpa using hc)]
      cases hrest : rest.splitOn sep with
      | nil => exact absurd hrest (List.splitOn_ne_nil sep rest)
      | cons piece pieces => rfl

theorem sep_notMem_of_mem_cut {sep : Char} {s piece : List Char} (h : piece ∈ cut sep s) :
    sep ∉ piece := by
  induction s generalizing piece with
  | nil => simp_all [cut]
  | cons c rest ih =>
    rw [cut] at h
    split at h
    · rcases List.mem_cons.mp h with rfl | h
      · simp
      · exact ih h
    · next hc =>
      split at h
      · next first others heq =>
        rcases List.mem_cons.mp h with rfl | h
        · have hfirst : sep ∉ first := ih (by simp [heq])
          simp [Ne.symm hc, hfirst]
        · exact ih (by simp [heq, h])
      · rw [List.mem_singleton.mp h, List.mem_singleton]
        exact Ne.symm hc

/-! ### Parts -/

/-- What reading leaves of a path: parts that count, none with a separator in it. -/
def Settled (p : Path) : Prop :=
  ∀ part ∈ p.parts, isIdle part.toList = false ∧ '/' ∉ part.toList

theorem settled_ofText (s : String) : (ofText s).Settled := by
  intro part hpart
  obtain ⟨piece, hpiece, rfl⟩ := List.mem_map.mp hpart
  obtain ⟨hmem, hidle⟩ := List.mem_filter.mp hpiece
  rw [String.toList_ofList]
  exact ⟨by simpa using hidle, sep_notMem_of_mem_cut hmem⟩

def counted (s : List Char) : List String :=
  ((cut '/' s).filter fun p => !isIdle p).map String.ofList

theorem counted_root_append (r : PathRoot) (s : List Char) :
    counted (r.text.toList ++ s) = counted s := by
  cases r <;> rfl

theorem counted_intercalate {p : Path} (h : p.Settled) :
    counted ("/".intercalate p.parts).toList = p.parts := by
  by_cases hparts : p.parts = []
  · rw [hparts]
    rfl
  · have hcut : cut '/' ("/".intercalate p.parts).toList = p.parts.map String.toList := by
      rw [String.toList_intercalate, cut_eq_splitOn]
      apply List.splitOn_intercalate '/'
      · intro l hl
        obtain ⟨part, hpart, rfl⟩ := List.mem_map.mp hl
        exact (h part hpart).2
      · simpa using hparts
    have hkept : (p.parts.map String.toList).filter (fun l => !isIdle l) =
        p.parts.map String.toList := by
      rw [List.filter_eq_self]
      intro l hl
      obtain ⟨part, hpart, rfl⟩ := List.mem_map.mp hl
      rw [(h part hpart).1, Bool.not_false]
    rw [counted, hcut, hkept, List.map_map]
    simp [Function.comp_def]

/-! ### Roots -/

theorem rootOf_append {s : List Char} (hs : s.head? ≠ some '/') (r : PathRoot) :
    rootOf (r.text.toList ++ s) = r := by
  cases s with
  | nil => cases r <;> rfl
  | cons c rest =>
    have hc : c ≠ '/' := fun h => hs (by rw [h, List.head?_cons])
    cases r <;> simp [PathRoot.text, rootOf, hc]

theorem head?_intercalate {p : Path} (h : p.Settled) :
    ("/".intercalate p.parts).toList.head? ≠ some '/' := by
  rw [String.toList_intercalate]
  cases hp : p.parts with
  | nil => simp
  | cons first others =>
    obtain ⟨hidle, hsep⟩ := h first (by simp [hp])
    cases hfirst : first.toList with
    | nil => simp [hfirst, isIdle] at hidle
    | cons c rest =>
      have hc : c ≠ '/' := fun e => hsep (by simp [hfirst, e])
      cases others <;> simp [hfirst, hc]

/-! ### Reading back -/

theorem ofText_text {p : Path} (h : p.Settled) : ofText p.text = p := by
  by_cases hnowhere : p.root = .relative ∧ p.parts = []
  · obtain ⟨r, parts⟩ := p
    obtain ⟨rfl, rfl⟩ := hnowhere
    rfl
  · have htext : p.text.toList = p.root.text.toList ++ ("/".intercalate p.parts).toList := by
      rw [text, if_neg hnowhere, String.toList_append]
    have hroot : rootOf p.text.toList = p.root := by
      rw [htext, rootOf_append (head?_intercalate h)]
    have hparts : counted p.text.toList = p.parts := by
      rw [htext, counted_root_append, counted_intercalate h]
    calc ofText p.text = ⟨rootOf p.text.toList, counted p.text.toList⟩ := rfl
      _ = p := by rw [hroot, hparts]

end Path
end Patchbay
