import Patchbay.Text.Blank

/-!
What `strip` leaves.  A text is its stripped form with blanks on both sides, and it is the only
text without outer blanks of which that is true.
-/

namespace Patchbay
namespace Text

def Blank (w : List Char) : Prop := ∀ c ∈ w, isBlank c = true

structure Trimmed (cs : List Char) : Prop where
  first : ∀ c, cs.head? = some c → isBlank c = false
  last : ∀ c, cs.getLast? = some c → isBlank c = false

theorem blank_nil : Blank [] := fun _ h => absurd h List.not_mem_nil

theorem Blank.append {v w : List Char} (hv : Blank v) (hw : Blank w) : Blank (v ++ w) := by
  intro c hc
  rcases List.mem_append.mp hc with hc | hc
  · exact hv c hc
  · exact hw c hc

variable {w w' cs : List Char}

/-! ### Blanks go -/

theorem stripLeft_blank_append (hw : Blank w) (cs : List Char) :
    stripLeft (w ++ cs) = stripLeft cs := List.dropWhile_append_of_pos hw

theorem stripRight_append_blank (cs : List Char) (hw : Blank w) :
    stripRight (cs ++ w) = stripRight cs := by
  have hrev : Blank w.reverse := fun c hc => hw c (List.mem_reverse.mp hc)
  rw [stripRight, List.reverse_append, List.dropWhile_append_of_pos hrev, stripRight]

theorem strip_blank (hw : Blank w) : strip w = [] := by
  have h : stripLeft (w ++ []) = [] := stripLeft_blank_append hw []
  rw [List.append_nil] at h
  rw [strip, h]
  rfl

/-! ### All else stays -/

theorem stripLeft_eq_self (h : ∀ c, cs.head? = some c → isBlank c = false) : stripLeft cs = cs := by
  cases cs with
  | nil => rfl
  | cons c rest => rw [stripLeft, List.dropWhile_cons, h c rfl]; rfl

theorem stripRight_eq_self (h : ∀ c, cs.getLast? = some c → isBlank c = false) :
    stripRight cs = cs := by
  have hrev : stripLeft cs.reverse = cs.reverse := by
    refine stripLeft_eq_self fun c hc => h c ?_
    rw [← hc, List.head?_reverse]
  rw [stripRight, ← stripLeft, hrev, List.reverse_reverse]

theorem strip_eq (hw : Blank w) (hw' : Blank w') (h : Trimmed cs) :
    strip (w ++ (cs ++ w')) = cs := by
  by_cases hcs : cs = []
  · subst hcs
    exact strip_blank (hw.append hw')
  · have hhead : (cs ++ w').head? = cs.head? := by
      cases cs with
      | nil => exact absurd rfl hcs
      | cons c rest => rfl
    rw [strip, stripLeft_blank_append hw, stripLeft_eq_self (fun c hc => h.first c (hhead ▸ hc)),
      stripRight_append_blank cs hw', stripRight_eq_self h.last]

theorem strip_eq_self (h : Trimmed cs) : strip cs = cs := by
  simpa using strip_eq blank_nil blank_nil h

/-! ### The stripped form -/

theorem exists_blank_append_stripLeft (cs : List Char) :
    ∃ w, Blank w ∧ cs = w ++ stripLeft cs := by
  refine ⟨cs.takeWhile isBlank, fun c hc => ?_, List.takeWhile_append_dropWhile.symm⟩
  exact List.all_eq_true.mp List.all_takeWhile c hc

theorem exists_stripRight_append_blank (cs : List Char) :
    ∃ w, Blank w ∧ cs = stripRight cs ++ w := by
  obtain ⟨w, hw, he⟩ := exists_blank_append_stripLeft cs.reverse
  refine ⟨w.reverse, fun c hc => hw c (List.mem_reverse.mp hc), ?_⟩
  rw [stripRight, ← stripLeft, ← List.reverse_append, ← he, List.reverse_reverse]

theorem exists_blanks_around_strip (cs : List Char) :
    ∃ w w', Blank w ∧ Blank w' ∧ cs = w ++ (strip cs ++ w') := by
  obtain ⟨w, hw, he⟩ := exists_blank_append_stripLeft cs
  obtain ⟨w', hw', he'⟩ := exists_stripRight_append_blank (stripLeft cs)
  exact ⟨w, w', hw, hw', by rw [strip, ← he', ← he]⟩

theorem strip_eq_nil_iff : strip cs = [] ↔ Blank cs := by
  constructor
  · intro h
    obtain ⟨w, w', hw, hw', he⟩ := exists_blanks_around_strip cs
    rw [he, h]
    exact hw.append hw'
  · exact strip_blank

theorem isInfix_strip (cs : List Char) : strip cs <:+: cs := by
  obtain ⟨w, w', -, -, he⟩ := exists_blanks_around_strip cs
  exact ⟨w, w', by rw [List.append_assoc, ← he]⟩

theorem not_blank_first_stripLeft (cs : List Char) {c : Char}
    (h : (stripLeft cs).head? = some c) : isBlank c = false := by
  have hnot := List.head?_dropWhile_not isBlank cs
  rw [← stripLeft, h] at hnot
  simpa using hnot

theorem trimmed_strip (cs : List Char) : Trimmed (strip cs) where
  first := by
    intro c hc
    obtain ⟨w, -, he⟩ := exists_stripRight_append_blank (stripLeft cs)
    refine not_blank_first_stripLeft cs ?_
    rw [he, List.head?_append]
    rw [strip] at hc
    rw [hc, Option.some_or]
  last := by
    intro c hc
    refine not_blank_first_stripLeft (stripLeft cs).reverse ?_
    rw [strip, stripRight, List.getLast?_reverse] at hc
    exact hc

end Text
end Patchbay
