import Patchbay.Proofs.TypeTree.Document
import Patchbay.TypeTree.Printer

/-!
The canonical spelling of a type is one of its spellings, provided that its labels can be labels at
all.  So printing and parsing are inverse on just those types, and the parser never returns another
(`parse_format_iff`).  Brackets in the printed text are nested as deep as the type is, which is what
the bound on levels is compared with.
-/

namespace Patchbay
namespace TypeTree

open Text

/-! ### Depth -/

mutual

def depth : TypeTree → Nat
  | .node _ as => depthAll as

def depthAll : List TypeTree → Nat
  | [] => 0
  | a :: as => max (depth a + 1) (depthAll as)

end

theorem depthAll_pos_of_spellsAll {as : List TypeTree} {s : List Char} (h : SpellsAll as s) :
    0 < depthAll as := by
  cases h <;> rw [depthAll] <;> omega

mutual

/-- A spelling closes what it opens, so it adds nothing to the nesting of what follows. -/
theorem nesting_append_of_spells : ∀ {t : TypeTree} {s : List Char}, Spells t s →
    ∀ rest : List Char, nesting (s ++ rest) = max (depth t) (nesting rest)
  | .node l as, s, h, rest => by
    have hblank {v : List Char} (hv : Blank v) : ∀ c ∈ v, isMark c = false :=
      fun c hc => isMark_of_isBlank (hv c hc)
    cases h with
    | @leaf _ w w' hl hw hw' =>
      simp only [List.append_assoc]
      rw [nesting_append_of_noMark (hblank hw), nesting_append_of_noMark hl.noMark,
        nesting_append_of_noMark (hblank hw'), depth, depthAll, Nat.zero_max]
    | @node _ _ inside w w' w'' hl _ hw hw' hw'' hargs =>
      have hpos := depthAll_pos_of_spellsAll hargs
      have hinside := nesting_append_of_spellsAll hargs ('>' :: (w'' ++ rest))
      have hclose : nesting ('>' :: (w'' ++ rest)) = nesting rest - 1 := by
        rw [nesting, if_neg (by decide), if_pos rfl, nesting_append_of_noMark (hblank hw'')]
      simp only [List.append_assoc, List.cons_append]
      rw [nesting_append_of_noMark (hblank hw), nesting_append_of_noMark hl.noMark,
        nesting_append_of_noMark (hblank hw'), nesting, if_pos rfl, depth]
      omega

theorem nesting_append_of_spellsAll : ∀ {as : List TypeTree} {s : List Char}, SpellsAll as s →
    ∀ rest : List Char, nesting (s ++ rest) + 1 = max (depthAll as) (nesting rest + 1)
  | a :: as, s, h, rest => by
    cases h with
    | one ha =>
      have hfirst := nesting_append_of_spells ha rest
      rw [depthAll, depthAll]
      omega
    | @more _ _ s r ha has =>
      have hfirst := nesting_append_of_spells ha (',' :: (r ++ rest))
      have hcomma : nesting (',' :: (r ++ rest)) = nesting (r ++ rest) :=
        nesting_cons_of_ne (by decide) (by decide) _
      have hothers := nesting_append_of_spellsAll has rest
      rw [List.append_assoc, List.cons_append, depthAll]
      omega

end

theorem nesting_of_spells {t : TypeTree} {s : List Char} (h : Spells t s) :
    nesting s = depth t := by
  have hs := nesting_append_of_spells h []
  rw [List.append_nil, nesting, Nat.max_zero] at hs
  exact hs

/-! ### The printed text -/

/-- Printed arguments are spelled arguments; the blank behind each comma belongs to the next one. -/
theorem spellsAll_format {a : TypeTree} {as : List TypeTree} {w : List Char} (hw : Blank w)
    (h : ∀ x ∈ a :: as, Spells x x.format.toList) :
    SpellsAll (a :: as) (w ++ (a.format.toList ++ (formatRest as).toList)) := by
  have ha := h a List.mem_cons_self
  induction as generalizing a w with
  | nil => exact .one (ha.pad hw blank_nil)
  | cons b bs ih =>
    have hspace : Blank [' '] := by
      intro c hc
      rw [List.mem_singleton.mp hc]
      decide
    have hrest := ih hspace (fun x hx => h x (List.mem_cons_of_mem a hx))
      (h b (List.mem_cons_of_mem a List.mem_cons_self))
    have hall := SpellsAll.more (ha.pad hw blank_nil) hrest
    have htext : (formatRest (b :: bs)).toList =
        ',' :: ([' '] ++ (b.format.toList ++ (formatRest bs).toList)) := by
      rw [formatRest, String.toList_append, String.toList_append, List.append_assoc]
      rfl
    rw [htext]
    simpa only [List.append_nil, List.append_assoc] using hall

theorem spells_format (t : TypeTree) : Proper t → (∀ l ∈ labels t, IsLabel l) →
    Spells t t.format.toList := by
  induction t using args_induction with
  | node l as ih =>
    intro hproper hlabels
    obtain ⟨hstar, hargs⟩ := proper_node.mp hproper
    have hl : IsLabel l := hlabels l (mem_labels.mpr (.inl rfl))
    cases as with
    | nil =>
      have hleaf := Spells.leaf hl blank_nil blank_nil
      rw [List.nil_append, List.append_nil] at hleaf
      rwa [format]
    | cons a as =>
      have hspell : ∀ x ∈ a :: as, Spells x x.format.toList := fun x hx =>
        ih x hx (hargs x hx) fun k hk => hlabels k (mem_labels.mpr (.inr ⟨x, hx, hk⟩))
      have hwild : l ≠ wildcard := fun hl => List.cons_ne_nil a as (hstar hl)
      have hnode := Spells.node hl hwild blank_nil blank_nil blank_nil
        (spellsAll_format blank_nil hspell)
      have htext : (format (.node l (a :: as))).toList =
          l.toList ++ ('<' :: (a.format.toList ++ (formatRest as).toList ++ ['>'])) := by
        rw [format]
        simp only [String.toList_append, List.append_assoc]
        rfl
      rw [htext]
      simpa only [List.nil_append] using hnode

theorem parse_format {t : TypeTree} (hproper : Proper t) (hlabels : ∀ l ∈ labels t, IsLabel l)
    (hdepth : depth t < maxNesting) : parse t.format = .ok t := by
  have hspell := spells_format t hproper hlabels
  refine parseChars_of_spells hspell ?_
  rwa [nesting_of_spells hspell]

/-! ### Printing and parsing -/

/-- A type is found again from its printed text exactly if all its labels can be labels, whether it
was built by hand or read from a document; and only such types are parsed from any text. -/
theorem parse_format_iff :
    (∀ t : TypeTree, Proper t → depth t < maxNesting →
      (parse t.format = .ok t ↔ ∀ l ∈ labels t, IsLabel l)) ∧
    (∀ (v : Value) (t : TypeTree), ofValue v = .ok t → depth t < maxNesting →
      (parse t.format = .ok t ↔ ∀ l ∈ labels t, IsLabel l)) ∧
    ∀ (text : String) (t : TypeTree), parse text = .ok t →
      Proper t ∧ ∀ l ∈ labels t, IsLabel l := by
  have hlabels : ∀ {text : String} {t : TypeTree}, parse text = .ok t →
      ∀ l ∈ labels t, IsLabel l := fun h => (spells_of_parseChars h).isLabel
  have hiff : ∀ t : TypeTree, Proper t → depth t < maxNesting →
      (parse t.format = .ok t ↔ ∀ l ∈ labels t, IsLabel l) :=
    fun t hproper hdepth => ⟨hlabels, fun h => parse_format hproper h hdepth⟩
  exact ⟨hiff, fun v t hv => hiff t (proper_of_ofValue hv),
    fun text t h => ⟨(writable_of_parse h).proper, hlabels h⟩⟩

/-- A label with a blank inside is found again.  One with a comma, which a document may hold, is
not: its type prints like one with two arguments. -/
theorem parse_format_iff_labels :
    parse (format (.node "pair" [leaf "a b", leaf "*"])) =
      .ok (.node "pair" [leaf "a b", leaf "*"]) ∧
    ofValue (toValue (.node "pair" [leaf "a,b"])) = .ok (.node "pair" [leaf "a,b"]) ∧
    parse (format (.node "pair" [leaf "a,b"])) ≠ .ok (.node "pair" [leaf "a,b"]) := by
  obtain ⟨hbuilt, hread, hparsed⟩ := parse_format_iff
  have hspaced : parse "pair< a b,*>" = .ok (.node "pair" [leaf "a b", leaf "*"]) := by
    decide +kernel
  have hdocument : ofValue (toValue (.node "pair" [leaf "a,b"])) =
      .ok (.node "pair" [leaf "a,b"]) := by decide +kernel
  obtain ⟨hproper, hlabels⟩ := hparsed _ _ hspaced
  refine ⟨(hbuilt _ hproper (by decide +kernel)).mpr hlabels, hdocument, fun h => ?_⟩
  have hcomma := (hread _ _ hdocument (by decide +kernel)).mp h "a,b" (by decide +kernel)
  exact absurd (hcomma.noMark ',' (by decide +kernel)) (by decide +kernel)

end TypeTree
end Patchbay
