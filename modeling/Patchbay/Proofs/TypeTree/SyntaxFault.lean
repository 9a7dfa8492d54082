import Patchbay.Proofs.TypeTree.Spelling

/-!
The piece of text that a fault of the parser names.  It is a piece of what was parsed, and it is at
fault by itself: parsed alone, it fails in the same way and names itself (`parse_fault_reproduces`).

A fault comes from the level at which a text has no outline, is a wildcard with a block, or has a
block that cannot be cut.  At that level nothing is asked about the levels below or about the text
around it, so the fault is found again without them.
-/

namespace Patchbay
namespace TypeTree

open Text

variable {whole : String} {levels : Nat} {text cs : List Char} {f : SyntaxFault}

/-- Each part of a block is a piece of it.  `token` holds the characters since the last cut. -/
theorem isInfix_of_segments {context : String} {depth : Nat} {token : List Char}
    {parts : List (List Char)} (h : segments context depth token cs = .ok parts) :
    ∀ part ∈ parts, part <:+: token.reverse ++ cs := by
  induction cs generalizing depth token parts with
  | nil =>
    intro part hpart
    obtain ⟨-, -, rfl⟩ := segments_nil_eq_ok_iff.mp h
    rw [List.mem_singleton] at hpart
    rw [hpart, List.append_nil]
    exact isInfix_strip _
  | cons c rest ih =>
    intro part hpart
    rcases segments_cons_eq_ok h with ⟨d, hrest, -⟩ | ⟨rfl, rfl, others, hrest, rfl⟩
    · have hpiece := ih hrest part hpart
      rwa [List.reverse_cons, List.append_assoc] at hpiece
    · rcases List.mem_cons.mp hpart with rfl | hpart
      · exact (isInfix_strip _).trans (List.prefix_append _ _).isInfix
      · have hpiece : part <:+: rest := ih hrest part hpart
        exact hpiece.trans ((List.suffix_cons _ _).trans (List.suffix_append _ _)).isInfix

theorem isInfix_of_outline? {source label inside : List Char}
    (h : outline? source = some (.applied label inside)) : inside <:+: source := by
  rcases of_outline? h with ⟨_, hbare, -⟩ | ⟨_, _, happlied, hsource, -⟩
  · cases hbare
  · obtain ⟨rfl, rfl⟩ := Outline.applied.inj happlied
    exact ⟨label ++ ['<'], ['>'], by simp [hsource]⟩

theorem parseChars_strip : parseChars whole levels (strip text) = parseChars whole levels text := by
  cases levels with
  | zero => rw [parseChars, parseChars]
  | succ levels => rw [parseChars, parseChars, strip_eq_self (trimmed_strip text)]

/-- The induction is on the levels: a fault of a part names a piece of the part. -/
theorem fault_of_parseChars (h : parseChars whole levels text = .error f)
    (hdeep : f.flaw ≠ .tooDeep) :
    f.text.toList <:+: text ∧ Trimmed f.text.toList ∧
      ∀ whole' levels', parseChars whole' (levels' + 1) f.text.toList = .error f := by
  induction levels generalizing text with
  | zero =>
    rw [parseChars, Except.error.injEq] at h
    rw [← h] at hdeep
    exact absurd rfl hdeep
  | succ levels ih =>
    rcases parseChars_eq_error h with ⟨htext, -, hagain⟩ |
      ⟨label, inside, parts, houtline, hparts, part, hmem, hpart⟩
    · rw [htext, String.toList_ofList]
      refine ⟨isInfix_strip text, trimmed_strip text, fun whole' levels' => ?_⟩
      rw [parseChars_strip, hagain]
    · obtain ⟨hpiece, htrimmed, hagain⟩ := ih hpart
      have hinside : part <:+: inside := isInfix_of_segments hparts part hmem
      have hsource : inside <:+: text := (isInfix_of_outline? houtline).trans (isInfix_strip text)
      exact ⟨hpiece.trans (hinside.trans hsource), htrimmed, hagain⟩

theorem parse_fault_reproduces (text : String) (f : SyntaxFault) (h : parse text = .error f)
    (hdeep : f.flaw ≠ .tooDeep) :
    f.text.toList <:+: text.toList ∧ Trimmed f.text.toList ∧ parse f.text = .error f := by
  obtain ⟨hpiece, htrimmed, hagain⟩ := fault_of_parseChars h hdeep
  exact ⟨hpiece, htrimmed, hagain f.text (maxNesting - 1)⟩

/-- The fault lies two levels down, in a block with nothing before its comma. -/
theorem parse_fault_reproduces_inner :
    let text := " pair<int, list< set< ,str> > >"
    let f : SyntaxFault := ⟨.emptyArgument, "set< ,str>"⟩
    parse text = .error f ∧ f.flaw ≠ .tooDeep ∧
    f.text.toList <:+: text.toList ∧ Trimmed f.text.toList ∧ parse f.text = .error f := by
  intro text f
  have h : parse text = .error f := by decide +kernel
  have hdeep : f.flaw ≠ .tooDeep := by decide
  exact ⟨h, hdeep, parse_fault_reproduces text f h hdeep⟩

end TypeTree
end Patchbay
