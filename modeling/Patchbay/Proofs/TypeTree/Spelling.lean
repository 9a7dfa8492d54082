import Patchbay.Proofs.Except
import Patchbay.Proofs.Text.Strip
import Patchbay.TypeTree.Parser

/-!
The parser reads exactly the spellings of types.  `Spells` is the grammar: a label with blanks
around it, then perhaps a block of spellings between angle brackets.  The parser finds the block by
its first and its last bracket, and cuts it by counting brackets; `parse_ok_iff_spells` says that
the two passes together accept a text exactly if the grammar derives it.

Soundness needs no balance: whatever the cuts are, the pieces with commas between them are the
block.  Completeness rests on `segments_append_of_spells`, which says that a spelling leaves the
count of brackets as it was and is never cut.
-/

namespace Patchbay
namespace TypeTree

open Text

/-! ### The grammar -/

structure IsLabel (l : String) : Prop where
  nonempty : l.toList ≠ []
  trimmed : Trimmed l.toList
  noMark : ∀ c ∈ l.toList, isMark c = false

mutual

/-- A text spells a type: its label and, if it has arguments, a block of their spellings.  Blanks
may stand around the label and behind the block. -/
inductive Spells : TypeTree → List Char → Prop
  | leaf {l : String} {w w' : List Char} : IsLabel l → Blank w → Blank w' →
      Spells (.node l []) (w ++ (l.toList ++ w'))
  | node {l : String} {as : List TypeTree} {inside w w' w'' : List Char} :
      IsLabel l → l ≠ wildcard → Blank w → Blank w' → Blank w'' → SpellsAll as inside →
      Spells (.node l as) (w ++ (l.toList ++ (w' ++ '<' :: (inside ++ '>' :: w''))))

/-- One spelling or more, with a comma between each and the next. -/
inductive SpellsAll : List TypeTree → List Char → Prop
  | one {a : TypeTree} {s : List Char} : Spells a s → SpellsAll [a] s
  | more {a : TypeTree} {as : List TypeTree} {s rest : List Char} :
      Spells a s → SpellsAll as rest → SpellsAll (a :: as) (s ++ ',' :: rest)

end

theorem isMark_of_isBlank {c : Char} (h : isBlank c = true) : isMark c = false := by
  have hopen : c ≠ '<' := by rintro rfl; simp [isBlank] at h
  have hclose : c ≠ '>' := by rintro rfl; simp [isBlank] at h
  have hcomma : c ≠ ',' := by rintro rfl; simp [isBlank] at h
  simp [isMark, hopen, hclose, hcomma]

variable {t : TypeTree} {cs w w' : List Char}

/-- Blanks around a spelling do not count. -/
theorem Spells.pad (h : Spells t cs) (hw : Blank w) (hw' : Blank w') :
    Spells t (w ++ (cs ++ w')) := by
  cases h with
  | @leaf l v v' hl hv hv' =>
    have h := Spells.leaf hl (hw.append hv) (hv'.append hw')
    simpa only [List.append_assoc, List.cons_append] using h
  | @node l as inside v v' v'' hl hstar hv hv' hv'' hargs =>
    have h := Spells.node hl hstar (hw.append hv) hv' (hv''.append hw') hargs
    simpa only [List.append_assoc, List.cons_append] using h

theorem spells_of_strip (h : Spells t (strip cs)) : Spells t cs := by
  obtain ⟨w, w', hw, hw', he⟩ := exists_blanks_around_strip cs
  rw [he]
  exact h.pad hw hw'

theorem IsLabel.trimmed_block {l : String} (hl : IsLabel l) (body : List Char) :
    Trimmed (l.toList ++ (body ++ ['>'])) where
  first := by
    intro c hc
    obtain ⟨d, rest, hd⟩ := List.exists_cons_of_ne_nil hl.nonempty
    rw [hd] at hc
    exact hl.trimmed.first c (by rw [hd]; exact hc)
  last := by
    intro c hc
    rw [← List.append_assoc, List.getLast?_concat, Option.some.injEq] at hc
    rw [← hc]
    decide

/-- A spelling without the blanks around it is a label, or a label before a block. -/
theorem strip_of_spells (h : Spells t cs) :
    (∃ l, IsLabel l ∧ t = .node l [] ∧ strip cs = l.toList) ∨
    ∃ l as v inside, IsLabel l ∧ l ≠ wildcard ∧ Blank v ∧ SpellsAll as inside ∧ t = .node l as ∧
      strip cs = l.toList ++ (v ++ '<' :: (inside ++ ['>'])) := by
  cases h with
  | @leaf l v v' hl hv hv' => exact .inl ⟨l, hl, rfl, strip_eq hv hv' hl.trimmed⟩
  | @node l as inside v v' v'' hl hstar hv hv' hv'' hargs =>
    refine .inr ⟨l, as, v', inside, hl, hstar, hv', hargs, rfl, ?_⟩
    have hbody := hl.trimmed_block (v' ++ '<' :: inside)
    have h := strip_eq hv hv'' hbody
    simpa only [List.append_assoc, List.cons_append, List.nil_append] using h

theorem Spells.strip (h : Spells t cs) : Spells t (strip cs) := by
  rcases strip_of_spells h with ⟨l, hl, rfl, hs⟩ | ⟨l, as, v, inside, hl, hstar, hv, hargs, rfl, hs⟩
  · rw [hs]
    simpa using Spells.leaf hl blank_nil blank_nil
  · rw [hs]
    simpa using Spells.node hl hstar blank_nil hv blank_nil hargs

theorem strip_ne_nil_of_spells (h : Spells t cs) : Text.strip cs ≠ [] := by
  rcases strip_of_spells h with ⟨l, hl, -, hs⟩ | ⟨l, as, v, inside, hl, -, -, -, -, hs⟩
  · rw [hs]
    exact hl.nonempty
  · rw [hs]
    simp

theorem ne_nil_of_spellsAll {as : List TypeTree} (h : SpellsAll as cs) : cs ≠ [] := by
  cases h with
  | one ha =>
    rintro rfl
    exact strip_ne_nil_of_spells ha rfl
  | more => simp

/-! ### Cutting blocks -/

section Cutting

variable {context : String} {depth : Nat} {token : List Char} {parts : List (List Char)}

theorem segment_eq_ok_iff {body : List Char} :
    segment context cs = .ok body ↔ Text.strip cs ≠ [] ∧ Text.strip cs = body := by
  by_cases h : Text.strip cs = [] <;> simp [segment, h]

theorem segments_nil_eq_ok_iff :
    segments context depth token [] = .ok parts ↔
      depth = 0 ∧ Text.strip token.reverse ≠ [] ∧ [Text.strip token.reverse] = parts := by
  by_cases hd : depth = 0
  · by_cases h : Text.strip token.reverse = [] <;> simp [segments, segment, Except.map, hd, h]
  · simp [segments, hd]

/-! The five things that a character of a block can do. -/

theorem segments_open (rest : List Char) :
    segments context depth token ('<' :: rest) =
      segments context (depth + 1) ('<' :: token) rest := by
  rw [segments.eq_def]
  simp

theorem segments_close (rest : List Char) :
    segments context (depth + 1) token ('>' :: rest) =
      segments context depth ('>' :: token) rest := by
  rw [segments.eq_def]
  simp

theorem segments_unopened (rest : List Char) :
    segments context 0 token ('>' :: rest) = .error ⟨.unopened, context⟩ := by
  rw [segments.eq_def]
  simp

theorem segments_cut (rest : List Char) :
    segments context 0 token (',' :: rest) = (do
      let first ← segment context token.reverse
      let others ← segments context 0 [] rest
      return first :: others) := by
  rw [segments.eq_def]
  simp

theorem segments_keep {c : Char} (hopen : c ≠ '<') (hclose : c ≠ '>')
    (hcut : ¬(c = ',' ∧ depth = 0)) (rest : List Char) :
    segments context depth token (c :: rest) = segments context depth (c :: token) rest := by
  rw [segments.eq_def]
  simp [hopen, hclose, hcut]

/-- A character goes to the present segment and may change the depth, or it ends the segment. -/
theorem segments_cons_eq_ok {c : Char} {rest : List Char}
    (h : segments context depth token (c :: rest) = .ok parts) :
    (∃ d, segments context d (c :: token) rest = .ok parts ∧
      ((c = '<' ∧ d = depth + 1) ∨ (c = '>' ∧ depth = d + 1) ∨ (c ≠ '<' ∧ c ≠ '>' ∧ d = depth))) ∨
    (c = ',' ∧ depth = 0 ∧ ∃ others, segments context 0 [] rest = .ok others ∧
      parts = Text.strip token.reverse :: others) := by
  by_cases hopen : c = '<'
  · subst hopen
    rw [segments_open] at h
    exact .inl ⟨depth + 1, h, .inl ⟨rfl, rfl⟩⟩
  by_cases hclose : c = '>'
  · subst hclose
    cases depth with
    | zero => simp [segments_unopened] at h
    | succ d =>
      rw [segments_close] at h
      exact .inl ⟨d, h, .inr (.inl ⟨rfl, rfl⟩)⟩
  by_cases hcut : c = ',' ∧ depth = 0
  · obtain ⟨rfl, rfl⟩ := hcut
    rw [segments_cut] at h
    cases hfirst : segment context token.reverse with
    | error f => simp [hfirst, bind, Except.bind] at h
    | ok first =>
      cases hrest : segments context 0 [] rest with
      | error f => simp [hfirst, hrest, bind, Except.bind] at h
      | ok others =>
        simp only [hfirst, hrest, bind, Except.bind, pure, Except.pure, Except.ok.injEq] at h
        refine .inr ⟨rfl, rfl, others, rfl, ?_⟩
        rw [← h, (segment_eq_ok_iff.mp hfirst).2]
  · rw [segments_keep hopen hclose hcut] at h
    exact .inl ⟨depth, h, .inr (.inr ⟨hopen, hclose, rfl⟩)⟩

theorem faults_of_segment :
    FaultsIn (fun f => f.text = context ∧ f.flaw ≠ .tooDeep) (segment context cs) := by
  by_cases hs : Text.strip cs = []
  · simp only [segment, hs]
    exact .error ⟨rfl, nofun⟩
  · simp only [segment, List.isEmpty_iff, hs]
    exact .ok _

/-- Whatever is wrong with a block, it is told of the context, and it is not that there are too many
levels. -/
theorem faults_of_segments : FaultsIn (fun f => f.text = context ∧ f.flaw ≠ .tooDeep)
    (segments context depth token cs) := by
  induction cs generalizing depth token with
  | nil =>
    rw [segments]
    split
    · exact faults_of_segment.map
    · exact .error ⟨rfl, nofun⟩
  | cons c rest ih =>
    by_cases hopen : c = '<'
    · subst hopen
      rw [segments_open]
      exact ih
    by_cases hclose : c = '>'
    · subst hclose
      cases depth with
      | zero =>
        rw [segments_unopened]
        exact .error ⟨rfl, nofun⟩
      | succ d =>
        rw [segments_close]
        exact ih
    by_cases hcut : c = ',' ∧ depth = 0
    · obtain ⟨rfl, rfl⟩ := hcut
      rw [segments_cut]
      exact faults_of_segment.bind fun first _ => ih.bind fun others _ => .ok _
    · rw [segments_keep hopen hclose hcut]
      exact ih

/-- Cutting loses nothing but blanks: spellings of the parts make a spelling of the block. -/
theorem spellsAll_of_segments {as : List TypeTree}
    (h : segments context depth token cs = .ok parts)
    (hparts : List.Forall₂ (fun part a => Spells a part) parts as) :
    SpellsAll as (token.reverse ++ cs) := by
  induction cs generalizing depth token parts as with
  | nil =>
    obtain ⟨-, -, rfl⟩ := segments_nil_eq_ok_iff.mp h
    obtain ⟨a, rest, ha, hrest, rfl⟩ := List.forall₂_cons_left_iff.mp hparts
    obtain rfl := List.forall₂_nil_left_iff.mp hrest
    rw [List.append_nil]
    exact .one (spells_of_strip ha)
  | cons c rest ih =>
    rcases segments_cons_eq_ok h with ⟨d, hrest, -⟩ | ⟨rfl, rfl, others, hrest, rfl⟩
    · have h := ih hrest hparts
      rwa [List.reverse_cons, List.append_assoc] at h
    · obtain ⟨a, as, ha, has, rfl⟩ := List.forall₂_cons_left_iff.mp hparts
      exact .more (spells_of_strip ha) (ih hrest has)

/-! A spelling passes through the cutting as one piece. -/

theorem segments_append_of_noMark {s : List Char} (hs : ∀ c ∈ s, isMark c = false)
    (rest : List Char) :
    segments context depth token (s ++ rest) =
      segments context depth (s.reverse ++ token) rest := by
  induction s generalizing token with
  | nil => rfl
  | cons c s ih =>
    have hc : isMark c = false := hs c List.mem_cons_self
    simp only [isMark, Bool.or_eq_false_iff, beq_eq_false_iff_ne, ne_eq] at hc
    rw [List.cons_append, segments_keep hc.1.1 hc.1.2 (fun h => hc.2 h.1),
      ih (fun d hd => hs d (List.mem_cons_of_mem c hd)), List.reverse_cons, List.append_assoc]
    rfl

theorem segments_inner_comma (rest : List Char) :
    segments context (depth + 1) token (',' :: rest) =
      segments context (depth + 1) (',' :: token) rest :=
  segments_keep (by decide) (by decide) (by simp) rest

end Cutting

mutual

theorem segments_append_of_spells (context : String) : ∀ {t : TypeTree} {s : List Char},
    Spells t s → ∀ (depth : Nat) (token rest : List Char),
    segments context depth token (s ++ rest) =
      segments context depth (s.reverse ++ token) rest
  | .node l as, s, h, depth, token, rest => by
    cases h with
    | @leaf _ w w' hl hw hw' =>
      refine segments_append_of_noMark (fun c hc => ?_) rest
      simp only [List.mem_append] at hc
      rcases hc with hc | hc | hc
      · exact isMark_of_isBlank (hw c hc)
      · exact hl.noMark c hc
      · exact isMark_of_isBlank (hw' c hc)
    | @node _ _ inside w w' w'' hl _ hw hw' hw'' hargs =>
      have hblank {v : List Char} (hv : Blank v) : ∀ c ∈ v, isMark c = false :=
        fun c hc => isMark_of_isBlank (hv c hc)
      simp only [List.append_assoc, List.cons_append]
      rw [segments_append_of_noMark (hblank hw), segments_append_of_noMark hl.noMark,
        segments_append_of_noMark (hblank hw'), segments_open,
        segments_append_of_spellsAll hargs, segments_close,
        segments_append_of_noMark (hblank hw'')]
      simp only [List.reverse_append, List.reverse_cons, List.append_assoc, List.cons_append,
        List.nil_append]

/-- Inside a bracket the commas between spellings do not cut. -/
theorem segments_append_of_spellsAll {context : String} : ∀ {as : List TypeTree} {s : List Char},
    SpellsAll as s → ∀ {depth : Nat} {token : List Char} (rest : List Char),
    segments context (depth + 1) token (s ++ rest) =
      segments context (depth + 1) (s.reverse ++ token) rest
  | a :: as, s, h, depth, token, rest => by
    cases h with
    | one ha => exact segments_append_of_spells context ha _ _ rest
    | @more _ _ s r ha has =>
      rw [List.append_assoc, segments_append_of_spells context ha, List.cons_append,
        segments_inner_comma, segments_append_of_spellsAll has]
      simp only [List.reverse_append, List.reverse_cons, List.append_assoc, List.cons_append,
        List.nil_append]

end

/-- The parts of a spelled block are spellings of its types. -/
theorem exists_segments_of_spellsAll (context : String) {as : List TypeTree} {s : List Char}
    (h : SpellsAll as s) :
    ∃ parts, segments context 0 [] s = .ok parts ∧
      List.Forall₂ (fun part a => Spells a part) parts as := by
  induction as generalizing s with
  | nil => cases h
  | cons a as ih =>
    cases h with
    | one ha =>
      have hcut := segments_append_of_spells context ha 0 [] []
      rw [List.append_nil, List.append_nil] at hcut
      refine ⟨[Text.strip s], ?_, .cons ha.strip .nil⟩
      rw [hcut, segments_nil_eq_ok_iff, List.reverse_reverse]
      exact ⟨rfl, strip_ne_nil_of_spells ha, rfl⟩
    | @more _ _ s rest ha has =>
      obtain ⟨parts, hparts, hspell⟩ := ih has
      refine ⟨Text.strip s :: parts, ?_, .cons ha.strip hspell⟩
      have hfirst : segment context s = .ok (Text.strip s) :=
        segment_eq_ok_iff.mpr ⟨strip_ne_nil_of_spells ha, rfl⟩
      rw [segments_append_of_spells context ha, List.append_nil, segments_cut, List.reverse_reverse,
        hfirst, hparts]
      rfl

/-! ### Nesting -/

/-- The most brackets that are open at one place of a text. -/
def nesting : List Char → Nat
  | [] => 0
  | c :: rest =>
    if c = '<' then nesting rest + 1
    else if c = '>' then nesting rest - 1
    else nesting rest

theorem nesting_cons_of_ne {c : Char} (hopen : c ≠ '<') (hclose : c ≠ '>') (rest : List Char) :
    nesting (c :: rest) = nesting rest := by
  rw [nesting, if_neg hopen, if_neg hclose]

theorem nesting_append_of_noMark {s : List Char} (hs : ∀ c ∈ s, isMark c = false)
    (rest : List Char) : nesting (s ++ rest) = nesting rest := by
  induction s with
  | nil => rfl
  | cons c s ih =>
    have hc : isMark c = false := hs c List.mem_cons_self
    simp only [isMark, Bool.or_eq_false_iff, beq_eq_false_iff_ne, ne_eq] at hc
    rw [List.cons_append, nesting_cons_of_ne hc.1.1 hc.1.2,
      ih (fun d hd => hs d (List.mem_cons_of_mem c hd))]

theorem nesting_le_append (s rest : List Char) : nesting s ≤ nesting (s ++ rest) := by
  induction s with
  | nil => exact Nat.zero_le _
  | cons c s ih =>
    rw [List.cons_append, nesting, nesting]
    split
    · omega
    · split <;> omega

/-- What is open at the end of a text counts for all that follows. -/
theorem nesting_append (s rest : List Char) :
    nesting rest + s.count '<' ≤ nesting (s ++ rest) + s.count '>' := by
  induction s with
  | nil => simp
  | cons c s ih =>
    rw [List.cons_append, nesting]
    by_cases hopen : c = '<'
    · subst hopen
      rw [if_pos rfl, List.count_cons_self, List.count_cons_of_ne (by decide)]
      omega
    · by_cases hclose : c = '>'
      · subst hclose
        rw [if_neg hopen, if_pos rfl, List.count_cons_self, List.count_cons_of_ne (by decide)]
        omega
      · rw [if_neg hopen, if_neg hclose, List.count_cons_of_ne hopen,
          List.count_cons_of_ne hclose]
        exact ih

theorem nesting_strip_le (cs : List Char) : nesting (Text.strip cs) ≤ nesting cs := by
  obtain ⟨w, w', hw, -, he⟩ := exists_blanks_around_strip cs
  calc nesting (Text.strip cs)
      ≤ nesting (Text.strip cs ++ w') := nesting_le_append _ _
    _ = nesting (w ++ (Text.strip cs ++ w')) :=
        (nesting_append_of_noMark (fun c hc => isMark_of_isBlank (hw c hc)) _).symm
    _ = nesting cs := by rw [← he]

/-- No part of a block is nested deeper than the block.  `token` holds the characters since the
last cut, so `depth` is what they leave open. -/
theorem nesting_segments_le {context : String} {depth : Nat} {token : List Char}
    {parts : List (List Char)} (h : segments context depth token cs = .ok parts)
    (hdepth : token.count '<' = token.count '>' + depth) :
    ∀ part ∈ parts, nesting part ≤ nesting (token.reverse ++ cs) := by
  induction cs generalizing depth token parts with
  | nil =>
    obtain ⟨-, -, rfl⟩ := segments_nil_eq_ok_iff.mp h
    intro part hpart
    rw [List.mem_singleton] at hpart
    rw [hpart, List.append_nil]
    exact nesting_strip_le _
  | cons c rest ih =>
    intro part hpart
    rcases segments_cons_eq_ok h with ⟨d, hrest, hd⟩ | ⟨rfl, rfl, others, hrest, rfl⟩
    · have hdepth' : (c :: token).count '<' = (c :: token).count '>' + d := by
        rcases hd with ⟨rfl, rfl⟩ | ⟨rfl, rfl⟩ | ⟨hopen, hclose, rfl⟩
        · rw [List.count_cons_self, List.count_cons_of_ne (by decide)]
          omega
        · rw [List.count_cons_self, List.count_cons_of_ne (by decide)]
          omega
        · rw [List.count_cons_of_ne hopen, List.count_cons_of_ne hclose]
          exact hdepth
      have hle := ih hrest hdepth' part hpart
      rwa [List.reverse_cons, List.append_assoc] at hle
    · rcases List.mem_cons.mp hpart with rfl | hpart
      · exact Nat.le_trans (nesting_strip_le _) (nesting_le_append _ _)
      · have hrest' : nesting part ≤ nesting rest := ih hrest rfl part hpart
        have hcomma : nesting (',' :: rest) = nesting rest :=
          nesting_cons_of_ne (by decide) (by decide) rest
        have happend := nesting_append token.reverse (',' :: rest)
        rw [List.count_reverse, List.count_reverse] at happend
        omega

/-! ### Outlines -/

section Outline

variable {source label inside : List Char}

theorem outline?_of_noMark (hne : label ≠ []) (hlabel : ∀ c ∈ label, isMark c = false) :
    outline? label = some (.bare label) := by
  have hall : ∀ c ∈ label, (!isMark c) = true := by simpa using hlabel
  have htake : (label ++ []).takeWhile (fun c => !isMark c) = label ++ [] :=
    List.takeWhile_append_of_pos hall
  have hdrop : (label ++ []).dropWhile (fun c => !isMark c) = [] :=
    List.dropWhile_append_of_pos hall
  rw [List.append_nil] at htake hdrop
  simp [outline?, htake, hdrop, hne]

theorem outline?_of_block (hne : label ≠ []) (hlabel : ∀ c ∈ label, isMark c = false)
    (hinside : inside ≠ []) :
    outline? (label ++ '<' :: (inside ++ ['>'])) = some (.applied label inside) := by
  have hall : ∀ c ∈ label, (!isMark c) = true := by simpa using hlabel
  have hmark : (!isMark '<') = false := by decide
  have htake : (label ++ '<' :: (inside ++ ['>'])).takeWhile (fun c => !isMark c) = label := by
    rw [List.takeWhile_append_of_pos hall, List.takeWhile_cons, hmark]
    simp
  have hdrop : (label ++ '<' :: (inside ++ ['>'])).dropWhile (fun c => !isMark c) =
      '<' :: (inside ++ ['>']) := by
    rw [List.dropWhile_append_of_pos hall, List.dropWhile_cons, hmark]
    simp
  simp [outline?, htake, hdrop, hne, hinside]

theorem noMark_takeWhile (source : List Char) :
    ∀ c ∈ source.takeWhile (fun c => !isMark c), isMark c = false := by
  intro c hc
  have h := List.all_eq_true.mp List.all_takeWhile c hc
  simpa using h

/-- An outline says where the label ends, and where the block begins and ends. -/
theorem of_outline? {o : Outline} (h : outline? source = some o) :
    (∃ label, o = .bare label ∧ source = label ∧ label ≠ [] ∧ ∀ c ∈ label, isMark c = false) ∨
    ∃ label inside, o = .applied label inside ∧ source = label ++ '<' :: (inside ++ ['>']) ∧
      label ≠ [] ∧ ∀ c ∈ label, isMark c = false := by
  have hsplit : source.takeWhile (fun c => !isMark c) ++ source.dropWhile (fun c => !isMark c) =
      source := List.takeWhile_append_dropWhile
  have hmarks := noMark_takeWhile source
  unfold outline? at h
  generalize source.takeWhile (fun c => !isMark c) = label at h hsplit hmarks
  generalize source.dropWhile (fun c => !isMark c) = rest at h hsplit
  by_cases hne : label = []
  · simp [hne] at h
  simp only [List.isEmpty_iff, hne, if_false] at h
  split at h
  · injection h with h
    rw [List.append_nil] at hsplit
    exact .inl ⟨label, h.symm, hsplit.symm, hne, hmarks⟩
  · next body =>
    split at h
    · next hbody =>
      injection h with h
      refine .inr ⟨label, body.dropLast, h.symm, ?_, hne, hmarks⟩
      rw [← hsplit, List.dropLast_append_getLast? _ hbody.1]
    · cases h
  · cases h

end Outline

/-! ### Parsing -/

section Parsing

variable {whole : String} {levels : Nat} {text : List Char}

/-- A text is parsed if its outline is that of a label, or that of a block whose parts are. -/
theorem parseChars_eq_ok_iff :
    parseChars whole (levels + 1) text = .ok t ↔
      (∃ label, outline? (Text.strip text) = some (.bare label) ∧
        leaf (String.ofList (Text.strip label)) = t) ∨
      ∃ label inside parts args, outline? (Text.strip text) = some (.applied label inside) ∧
        String.ofList (Text.strip label) ≠ wildcard ∧
        segments (String.ofList (Text.strip text)) 0 [] inside = .ok parts ∧
        parts.mapM (parseChars whole levels) = .ok args ∧
        .node (String.ofList (Text.strip label)) args = t := by
  rw [parseChars]
  cases ho : outline? (Text.strip text) with
  | none => simp
  | some o =>
    cases o with
    | bare label => simp
    | applied label inside =>
      by_cases hstar : String.ofList (Text.strip label) = wildcard
      · simp [hstar]
      · cases hs : segments (String.ofList (Text.strip text)) 0 [] inside with
        | error f => simp [hstar, hs, bind, Except.bind]
        | ok parts =>
          cases ha : parts.mapM (parseChars whole levels) with
          | error f => simp [hstar, hs, ha, bind, Except.bind]
          | ok args => simp [hstar, hs, ha, bind, Except.bind, pure, Except.pure]

/-- The label of an outline without the blanks around it. -/
theorem isLabel_strip {label : List Char} (rest : List Char) (h : Trimmed (label ++ rest))
    (hne : label ≠ []) (hmarks : ∀ c ∈ label, isMark c = false) :
    IsLabel (String.ofList (Text.strip label)) := by
  obtain ⟨w, w', hw, hw', he⟩ := exists_blanks_around_strip label
  constructor
  · rw [String.toList_ofList]
    intro hnil
    obtain ⟨c, cs, hc⟩ := List.exists_cons_of_ne_nil hne
    have hblank : Blank label := by
      rw [he, hnil]
      exact hw.append hw'
    have hfirst : isBlank c = false := h.first c (by rw [hc]; rfl)
    rw [hblank c (by rw [hc]; exact List.mem_cons_self)] at hfirst
    cases hfirst
  · rw [String.toList_ofList]
    exact trimmed_strip label
  · rw [String.toList_ofList]
    intro c hc
    refine hmarks c ?_
    rw [he]
    exact List.mem_append_right _ (List.mem_append_left _ hc)

theorem spells_of_parseChars (h : parseChars whole levels text = .ok t) : Spells t text := by
  induction levels generalizing text t with
  | zero => simp [parseChars] at h
  | succ levels ih =>
    apply spells_of_strip
    have htrim := trimmed_strip text
    rcases parseChars_eq_ok_iff.mp h with ⟨label, ho, rfl⟩ |
      ⟨label, inside, parts, args, ho, hstar, hparts, hargs, rfl⟩
    · rcases of_outline? ho with ⟨_, hbare, hsource, hne, hmarks⟩ | ⟨_, _, happlied, -⟩
      · obtain rfl := Outline.bare.inj hbare
        rw [hsource] at htrim ⊢
        have hl := isLabel_strip [] (by rwa [List.append_nil]) hne hmarks
        have hspell := Spells.leaf hl blank_nil blank_nil
        rw [strip_eq_self htrim] at hspell ⊢
        simpa [leaf] using hspell
      · cases happlied
    · rcases of_outline? ho with ⟨_, hbare, -⟩ | ⟨_, _, happlied, hsource, hne, hmarks⟩
      · cases hbare
      · obtain ⟨rfl, rfl⟩ := Outline.applied.inj happlied
        rw [hsource] at htrim ⊢
        have hl := isLabel_strip _ htrim hne hmarks
        have hinside : SpellsAll args inside := by
          refine spellsAll_of_segments hparts ?_
          exact (mapM_eq_ok_iff.mp hargs).imp fun _ _ h => ih h
        obtain ⟨w, w', hw, hw', he⟩ := exists_blanks_around_strip label
        have hblock : label ++ '<' :: (inside ++ ['>']) =
            w ++ (Text.strip label ++ (w' ++ '<' :: (inside ++ ['>']))) := by
          conv_lhs => rw [he]
          simp only [List.append_assoc]
        have hspell := Spells.node hl hstar hw hw' blank_nil hinside
        rw [String.toList_ofList, ← hblock] at hspell
        exact hspell

theorem nesting_block_lt {label : List Char} (inside : List Char)
    (hmarks : ∀ c ∈ label, isMark c = false) :
    nesting inside < nesting (label ++ '<' :: (inside ++ ['>'])) := by
  rw [nesting_append_of_noMark hmarks, nesting, if_pos rfl]
  exact Nat.lt_succ_of_le (nesting_le_append inside ['>'])

/-- With more levels than brackets are nested, every spelling is parsed. -/
theorem parseChars_of_spells (h : Spells t text) (hlevels : nesting text < levels) :
    parseChars whole levels text = .ok t := by
  induction levels generalizing text t with
  | zero => exact absurd hlevels (Nat.not_lt_zero _)
  | succ levels ih =>
    rw [parseChars_eq_ok_iff]
    have hstrip := nesting_strip_le text
    rcases strip_of_spells h with ⟨l, hl, rfl, hs⟩ |
      ⟨l, as, v, inside, hl, hstar, hv, hargs, rfl, hs⟩
    · refine .inl ⟨l.toList, ?_, ?_⟩
      · rw [hs]
        exact outline?_of_noMark hl.nonempty hl.noMark
      · rw [strip_eq_self hl.trimmed, String.ofList_toList]
        rfl
    · have hmarks : ∀ c ∈ l.toList ++ v, isMark c = false := by
        intro c hc
        rcases List.mem_append.mp hc with hc | hc
        · exact hl.noMark c hc
        · exact isMark_of_isBlank (hv c hc)
      have hlabel : Text.strip (l.toList ++ v) = l.toList :=
        strip_eq blank_nil hv hl.trimmed
      rw [← List.append_assoc] at hs
      obtain ⟨parts, hparts, hspell⟩ :=
        exists_segments_of_spellsAll (String.ofList (Text.strip text)) hargs
      -- Every part lies inside the bracket, so one level less is enough for it.
      have hshallow : ∀ part ∈ parts, nesting part < levels := by
        intro part hpart
        have hle : nesting part ≤ nesting inside := nesting_segments_le hparts rfl part hpart
        have hlt := nesting_block_lt inside hmarks
        rw [← hs] at hlt
        omega
      refine .inr ⟨l.toList ++ v, inside, parts, as, ?_, ?_, hparts, ?_, ?_⟩
      · rw [hs]
        exact outline?_of_block (by simp [hl.nonempty]) hmarks (ne_nil_of_spellsAll hargs)
      · rwa [hlabel, String.ofList_toList]
      · rw [mapM_eq_ok_iff]
        have hboth := (List.forall₂_and_left parts as).mpr ⟨hshallow, hspell⟩
        exact hboth.imp fun _ _ h => ih h.2 h.1
      · rw [hlabel, String.ofList_toList]

/-- A text fails by itself, with any number of levels, or at one of the parts of its block. -/
theorem parseChars_eq_error {f : SyntaxFault}
    (h : parseChars whole (levels + 1) text = .error f) :
    (f.text = String.ofList (Text.strip text) ∧ f.flaw ≠ .tooDeep ∧
      ∀ whole' levels', parseChars whole' (levels' + 1) text = .error f) ∨
    ∃ label inside parts, outline? (Text.strip text) = some (.applied label inside) ∧
      segments (String.ofList (Text.strip text)) 0 [] inside = .ok parts ∧
      ∃ part ∈ parts, parseChars whole levels part = .error f := by
  rw [parseChars] at h
  simp only [parseChars]
  cases ho : outline? (Text.strip text) with
  | none =>
    simp only [ho, Except.error.injEq] at h
    subst h
    exact .inl ⟨rfl, nofun, fun _ _ => rfl⟩
  | some o =>
    rcases of_outline? ho with ⟨label, rfl, -⟩ | ⟨label, inside, rfl, -⟩
    · simp [ho] at h
    · by_cases hstar : String.ofList (Text.strip label) = wildcard
      · simp only [ho, if_pos hstar, Except.error.injEq] at h
        subst h
        exact .inl ⟨rfl, nofun, fun _ _ => if_pos hstar⟩
      · simp only [ho, if_neg hstar] at h
        simp only [if_neg hstar]
        cases hparts : segments (String.ofList (Text.strip text)) 0 [] inside with
        | error g =>
          simp only [hparts, bind, Except.bind, Except.error.injEq] at h
          subst h
          obtain ⟨htext, hflaw⟩ := faults_of_segments g hparts
          exact .inl ⟨htext, hflaw, fun _ _ => rfl⟩
        | ok parts =>
          cases hargs : parts.mapM (parseChars whole levels) with
          | error g =>
            simp only [hparts, hargs, bind, Except.bind, Except.error.injEq] at h
            exact .inr ⟨label, inside, parts, rfl, hparts, exists_error_of_mapM (h ▸ hargs)⟩
          | ok args => simp [hparts, hargs, bind, Except.bind, pure, Except.pure] at h

/-- Levels run out only where as many brackets are nested. -/
theorem le_nesting_of_tooDeep {f : SyntaxFault} (h : parseChars whole levels text = .error f)
    (hf : f.flaw = .tooDeep) : levels ≤ nesting text := by
  induction levels generalizing text with
  | zero => exact Nat.zero_le _
  | succ levels ih =>
    rcases parseChars_eq_error h with
      ⟨-, hflaw, -⟩ | ⟨label, inside, parts, ho, hparts, part, hmem, hpart⟩
    · exact absurd hf hflaw
    · rcases of_outline? ho with ⟨_, hbare, -⟩ | ⟨_, _, happlied, hsource, -, hmarks⟩
      · cases hbare
      · obtain ⟨rfl, rfl⟩ := Outline.applied.inj happlied
        have hdeep : levels ≤ nesting part := ih hpart
        have hle : nesting part ≤ nesting inside := nesting_segments_le hparts rfl part hmem
        have hlt := nesting_block_lt inside hmarks
        rw [← hsource] at hlt
        have hstrip := nesting_strip_le text
        omega

end Parsing

/-- Below the bound on levels, the parser returns a type exactly for the spellings of that type,
and it refuses every other text for a flaw of its own, never for its depth. -/
theorem parse_ok_iff_spells (text : String) (h : nesting text.toList < maxNesting) :
    (∀ t, parse text = .ok t ↔ Spells t text.toList) ∧
    ((¬∃ t, Spells t text.toList) → ∃ f, parse text = .error f ∧ f.flaw ≠ .tooDeep) := by
  refine ⟨fun t => ⟨spells_of_parseChars, fun hspell => parseChars_of_spells hspell h⟩, ?_⟩
  intro hnone
  cases hp : parse text with
  | ok t => exact absurd ⟨t, spells_of_parseChars hp⟩ hnone
  | error f =>
    refine ⟨f, rfl, fun hf => ?_⟩
    exact absurd (le_nesting_of_tooDeep hp hf) (Nat.not_le.mpr h)

theorem parse_ok_iff_spells_nested :
    nesting "pair< int ,list<str>>".toList < maxNesting ∧
    ∀ t, parse "pair< int ,list<str>>" = .ok t ↔ Spells t "pair< int ,list<str>>".toList :=
  ⟨by decide, (parse_ok_iff_spells "pair< int ,list<str>>" (by decide)).1⟩

end TypeTree
end Patchbay
