import Mathlib.Data.Nat.Digits.Defs
import Patchbay.Value.Convert

/-!
Whole numbers and their decimal text.  What is written for a number is read back as that number,
unless it has more digits than are read (`integerOfText_toString`).  The reader takes digits of many
scripts and passes over blanks, signs and underscores; the text of a number has none of these, so
every stage of the reader is followed on plain digits.
-/

namespace Patchbay

/-! ### Plain digits -/

namespace Text

theorem toNat_of_isDigit {c : Char} (h : c.isDigit = true) : 48 ≤ c.toNat ∧ c.toNat ≤ 57 := by
  simpa [Char.isDigit, UInt32.le_iff_toNat_le] using h

/-- Plain digits come first in the table of scripts. -/
theorem digit?_of_isDigit {c : Char} (h : c.isDigit = true) : digit? c = some (c.toNat - 48) := by
  obtain ⟨hlow, hhigh⟩ := toNat_of_isDigit h
  have hscript : (decide (0x0030 ≤ c.toNat) && decide (c.toNat < 0x0030 + 10)) = true := by
    simp only [Bool.and_eq_true, decide_eq_true_eq]
    omega
  have hzeros : zeros = 0x0030 :: zeros.tail := rfl
  rw [digit?, hzeros, List.find?_cons]
  simp only [hscript, Option.map_some]

theorem isBlank_of_isDigit {c : Char} (h : c.isDigit = true) : isBlank c = false := by
  obtain ⟨hlow, hhigh⟩ := toNat_of_isDigit h
  simp only [isBlank, Bool.or_eq_false_iff, Bool.and_eq_false_iff, decide_eq_false_iff_not,
    beq_eq_false_iff_ne]
  omega

end Text

namespace Number

variable {cs : List Char}

theorem isMargin_of_isDigit {c : Char} (h : c.isDigit = true) : isMargin c = false := by
  rw [isMargin, Text.isBlank_of_isDigit h, Bool.false_and]

theorem dropWhile_isMargin (h : ∀ c ∈ cs, c.isDigit = true) : cs.dropWhile isMargin = cs := by
  cases cs with
  | nil => rfl
  | cons c rest =>
    have hc := isMargin_of_isDigit (h c List.mem_cons_self)
    rw [List.dropWhile_cons_of_neg (by simp [hc])]

theorem stripMargin_digits (h : ∀ c ∈ cs, c.isDigit = true) : stripMargin cs = cs := by
  have hback : ∀ c ∈ cs.reverse, c.isDigit = true := fun c hc => h c (List.mem_reverse.mp hc)
  rw [stripMargin, dropWhile_isMargin h, dropWhile_isMargin hback, List.reverse_reverse]

theorem takeSign_digits (h : ∀ c ∈ cs, c.isDigit = true) : takeSign cs = (false, cs) := by
  unfold takeSign
  split
  · exact absurd (h '+' List.mem_cons_self) (by decide)
  · exact absurd (h '-' List.mem_cons_self) (by decide)
  · rfl

/-- Digits alone are read to their end.  At least one is needed. -/
theorem readDigits_digits {afterDigit : Bool} (h : ∀ c ∈ cs, c.isDigit = true)
    (hsome : afterDigit = true ∨ cs ≠ []) :
    readDigits afterDigit cs = some (cs.map fun c => c.toNat - 48, []) := by
  induction cs generalizing afterDigit with
  | nil => simpa [readDigits] using hsome
  | cons c rest ih =>
    have hc := Text.digit?_of_isDigit (h c List.mem_cons_self)
    have hrest : readDigits true rest = some (rest.map fun c => c.toNat - 48, []) :=
      ih (fun x hx => h x (List.mem_cons_of_mem c hx)) (.inl rfl)
    simp only [readDigits, hc, hrest, Option.map_some, List.map_cons]

theorem ofDigits_toDigits (n : Nat) :
    ofDigits ((Nat.toDigits 10 n).map fun c => c.toNat - 48) = n := by
  rw [ofDigits, List.foldl_map]
  exact Nat.ofDigitChars_ten_toDigits

theorem length_toDigits_le {n limit : Nat} (hpos : 0 < limit) (h : n < Nat.pow 10 limit) :
    (Nat.toDigits 10 n).length ≤ limit :=
  Nat.toDigits_length 10 n limit hpos h

theorem readInteger_toDigits {n : Nat} (h : n < Nat.pow 10 maxIntegerDigits) :
    readInteger (Nat.toDigits 10 n) = .ok n := by
  have hdigits : ∀ c ∈ Nat.toDigits 10 n, c.isDigit = true := fun c hc =>
    Nat.isDigit_of_mem_toDigits (by decide) (by decide) hc
  have hsome : Nat.toDigits 10 n ≠ [] := by
    simp
  have hlength : (Nat.toDigits 10 n).length ≤ maxIntegerDigits :=
    length_toDigits_le (by decide) h
  rw [readInteger, stripMargin_digits hdigits, takeSign_digits hdigits]
  simp only [readDigits_digits hdigits (.inr hsome), List.length_map, List.isEmpty_nil, if_true,
    ofDigits_toDigits]
  rw [if_neg (by omega)]
  rfl

end Number

theorem Value.integerOfText_toString {n : Nat} (h : n < Nat.pow 10 Number.maxIntegerDigits) :
    Value.integerOfText (toString n) = .ok (n : Int) := by
  rw [integerOfText, Nat.toString_eq_ofList_toDigits, String.toList_ofList,
    Number.readInteger_toDigits h]

end Patchbay
