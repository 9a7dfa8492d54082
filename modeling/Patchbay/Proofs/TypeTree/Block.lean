import Mathlib.Data.List.Infix
import Patchbay.Proofs.TypeTree.Spelling

/-!
Blocks are cut at their outer commas and nowhere else.  Which commas these are is said without the
cutting: a comma is outer if the text before it closes as many brackets as it opens.  What stands
between the outer commas are the `pieces` of a text.

The loop of `segments` knows only the number of open brackets.  `Passes` says what one character
does to that number; balance, pieces and segments each have one equation along it, and
`segments_eq_ok_iff` follows by induction on the text.  The texts that a block can be made of are
those that the cuts leave whole (`IsArgument`), with any blanks around them.
-/

namespace Patchbay
namespace TypeTree

open Text

variable {depth depth' : Nat} {c : Char} {cs rest w : List Char}

/-! ### Balance -/

/-- A text behind `depth` open brackets that closes them and all of its own, and no start of which
closes a bracket that is not open. -/
structure Closes (depth : Nat) (cs : List Char) : Prop where
  covered : ∀ start, start <+: cs → start.count '>' ≤ depth + start.count '<'
  settled : depth + cs.count '<' = cs.count '>'

/-- No start of the text closes more brackets than it opens, and the whole text closes them all. -/
def Balanced (cs : List Char) : Prop := Closes 0 cs

/-- Behind `depth` open brackets, no comma stands where all brackets are closed. -/
def Uncut (depth : Nat) (cs : List Char) : Prop :=
  ∀ start, start ++ [','] <+: cs → depth + start.count '<' ≠ start.count '>'

/-- A comma, behind `depth` open brackets and the text before it that together leave none open. -/
def isOuterComma (depth : Nat) (place : List Char × Char) : Bool :=
  place.2 == ',' && depth + place.1.count '<' == place.1.count '>'

/-- What stands between the outer commas of a text. -/
def pieces (depth : Nat) (cs : List Char) : List (List Char) :=
  ((cs.inits.zip cs).splitOnP (isOuterComma depth)).map (·.map Prod.snd)

/-! ### One character -/

/-- A character leads from one number of open brackets to another. -/
inductive Passes : Nat → Char → Nat → Prop
  | opens (depth : Nat) : Passes depth '<' (depth + 1)
  | closes (depth : Nat) : Passes (depth + 1) '>' depth
  | keeps {c : Char} (depth : Nat) : c ≠ '<' → c ≠ '>' → Passes depth c depth

theorem passes_of_noMark (h : isMark c = false) (depth : Nat) : Passes depth c depth := by
  simp only [isMark, Bool.or_eq_false_iff, beq_eq_false_iff_ne, ne_eq] at h
  exact .keeps depth h.1.1 h.1.2

theorem passes_comma (depth : Nat) : Passes depth ',' depth :=
  .keeps depth (by decide) (by decide)

/-- Only a closing bracket where none is open leads nowhere. -/
theorem unopened_or_passes (depth : Nat) (c : Char) :
    (depth = 0 ∧ c = '>') ∨ ∃ depth', Passes depth c depth' := by
  by_cases hopen : c = '<'
  · subst hopen
    exact .inr ⟨_, .opens depth⟩
  by_cases hclose : c = '>'
  · subst hclose
    cases depth with
    | zero => exact .inl ⟨rfl, rfl⟩
    | succ d => exact .inr ⟨d, .closes d⟩
  · exact .inr ⟨depth, .keeps depth hopen hclose⟩

theorem Passes.count_cons (h : Passes depth c depth') (cs : List Char) :
    depth + (c :: cs).count '<' + cs.count '>' = depth' + cs.count '<' + (c :: cs).count '>' := by
  cases h with
  | opens =>
    rw [List.count_cons_self, List.count_cons_of_ne (by decide)]
    omega
  | closes =>
    rw [List.count_cons_self, List.count_cons_of_ne (by decide)]
    omega
  | keeps _ hopen hclose => rw [List.count_cons_of_ne hopen, List.count_cons_of_ne hclose]

theorem closes_nil_iff : Closes depth [] ↔ depth = 0 := by
  constructor
  · intro h
    simpa using h.settled
  · rintro rfl
    refine ⟨fun start hstart => ?_, rfl⟩
    rw [List.prefix_nil.mp hstart]
    exact Nat.le_refl 0

theorem closes_cons_iff (h : Passes depth c depth') :
    Closes depth (c :: rest) ↔ Closes depth' rest := by
  constructor
  · intro hcs
    constructor
    · intro start hstart
      have hle := hcs.covered (c :: start) ((List.prefix_cons_inj c).mpr hstart)
      have hcount := h.count_cons start
      omega
    · have heq := hcs.settled
      have hcount := h.count_cons rest
      omega
  · intro hrest
    constructor
    · intro start hstart
      cases start with
      | nil => exact Nat.zero_le _
      | cons d start =>
        obtain ⟨rfl, hprefix⟩ := List.cons_prefix_cons.mp hstart
        have hle := hrest.covered start hprefix
        have hcount := h.count_cons start
        omega
    · have heq := hrest.settled
      have hcount := h.count_cons rest
      omega

theorem not_closes_unopened (rest : List Char) : ¬Closes 0 ('>' :: rest) := by
  intro h
  have hle := h.covered ['>'] (by simp)
  simp at hle

theorem Closes.append (h : Closes depth cs) (hrest : Balanced rest) :
    Closes depth (cs ++ rest) := by
  induction cs generalizing depth with
  | nil =>
    obtain rfl := closes_nil_iff.mp h
    exact hrest
  | cons c cs ih =>
    rcases unopened_or_passes depth c with ⟨rfl, rfl⟩ | ⟨depth', hpasses⟩
    · exact absurd h (not_closes_unopened cs)
    · exact (closes_cons_iff hpasses).mpr (ih ((closes_cons_iff hpasses).mp h))

theorem uncut_cons_iff (h : Passes depth c depth') (hcut : ¬(c = ',' ∧ depth = 0)) :
    Uncut depth (c :: rest) ↔ Uncut depth' rest := by
  constructor
  · intro hcs start hstart heq
    have hcount := h.count_cons start
    exact hcs (c :: start) ((List.prefix_cons_inj c).mpr hstart) (by omega)
  · intro hrest start hstart heq
    cases start with
    | nil =>
      have hc : ',' = c := (List.cons_prefix_cons.mp hstart).1
      have hdepth : depth = 0 := by simpa using heq
      exact hcut ⟨hc.symm, hdepth⟩
    | cons d start =>
      rw [List.cons_append, List.cons_prefix_cons] at hstart
      obtain ⟨rfl, hstart⟩ := hstart
      have hcount := h.count_cons start
      exact hrest start hstart (by omega)

theorem not_uncut_comma (rest : List Char) : ¬Uncut 0 (',' :: rest) := by
  intro h
  exact h [] (by simp) rfl

/-! ### Pieces -/

theorem splitOnP_map {α β : Type} (p : β → Bool) (f : α → β) (l : List α) :
    (l.map f).splitOnP p = (l.splitOnP (p ∘ f)).map (·.map f) := by
  induction l with
  | nil => rfl
  | cons a l ih =>
    rw [List.map_cons, List.splitOnP_cons_eq_if_modifyHead, List.splitOnP_cons_eq_if_modifyHead, ih,
      Function.comp_apply]
    split
    · rfl
    · cases l.splitOnP (p ∘ f) <;> rfl

/-- Behind a character, the outer commas are found with the brackets that it leaves open. -/
theorem isOuterComma_cons (h : Passes depth c depth') :
    isOuterComma depth ∘ Prod.map (c :: ·) id = isOuterComma depth' := by
  funext place
  have hcount := h.count_cons place.1
  have hiff : depth + (c :: place.1).count '<' = (c :: place.1).count '>' ↔
      depth' + place.1.count '<' = place.1.count '>' := by omega
  simp only [Function.comp_apply, isOuterComma, Prod.map_fst, Prod.map_snd, id_eq]
  rw [Bool.eq_iff_iff, Bool.and_eq_true, Bool.and_eq_true, beq_iff_eq, beq_iff_eq, beq_iff_eq, hiff]

@[simp]
theorem pieces_nil (depth : Nat) : pieces depth [] = [[]] := rfl

theorem pieces_cons (h : Passes depth c depth') (rest : List Char) :
    pieces depth (c :: rest) =
      if c = ',' ∧ depth = 0 then [] :: pieces depth' rest
      else (pieces depth' rest).modifyHead (c :: ·) := by
  have hfirst : isOuterComma depth ([], c) = true ↔ c = ',' ∧ depth = 0 := by
    simp [isOuterComma]
  rw [pieces, List.inits_cons, List.zip_cons_cons, List.zip_map_left,
    List.splitOnP_cons_eq_if_modifyHead, splitOnP_map, isOuterComma_cons h, pieces]
  by_cases hcut : c = ',' ∧ depth = 0
  · rw [if_pos hcut, if_pos (hfirst.mpr hcut)]
    simp [Function.comp_def]
  · rw [if_neg hcut, if_neg (fun e => hcut (hfirst.mp e))]
    cases (rest.inits.zip rest).splitOnP (isOuterComma depth') <;> simp [Function.comp_def]

theorem pieces_cut (rest : List Char) : pieces 0 (',' :: rest) = [] :: pieces 0 rest := by
  rw [pieces_cons (passes_comma 0), if_pos ⟨rfl, rfl⟩]

theorem exists_pieces (depth : Nat) (cs : List Char) :
    ∃ first others, pieces depth cs = first :: others := by
  have hne : pieces depth cs ≠ [] := by
    rw [pieces, ne_eq, List.map_eq_nil_iff]
    exact List.splitOnP_ne_nil _ _
  exact List.exists_cons_of_ne_nil hne

/-! ### Segments -/

section Segments

variable {context : String} {token : List Char} {parts : List (List Char)}

theorem segments_of_passes (h : Passes depth c depth') (hcut : ¬(c = ',' ∧ depth = 0)) :
    segments context depth token (c :: rest) = segments context depth' (c :: token) rest := by
  cases h with
  | opens => exact segments_open rest
  | closes => exact segments_close rest
  | keeps _ hopen hclose => exact segments_keep hopen hclose hcut rest

theorem segments_cut_eq_ok_iff :
    segments context 0 token (',' :: rest) = .ok parts ↔
      ¬Blank token.reverse ∧ ∃ others, segments context 0 [] rest = .ok others ∧
        strip token.reverse :: others = parts := by
  rw [segments_cut, bind_eq_ok_iff, ← strip_eq_nil_iff]
  simp only [bind_eq_ok_iff, segment_eq_ok_iff, pure, Except.pure, Except.ok.injEq]
  constructor
  · rintro ⟨first, ⟨hne, rfl⟩, others, hothers, rfl⟩
    exact ⟨hne, others, hothers, rfl⟩
  · rintro ⟨hne, others, hothers, rfl⟩
    exact ⟨_, ⟨hne, rfl⟩, others, hothers, rfl⟩

/-- A block can be cut exactly if its brackets are closed and none of its pieces is blank.  The
first piece is still to be put behind `token`, the characters since the last cut. -/
theorem segments_eq_ok_iff :
    segments context depth token cs = .ok parts ↔
      Closes depth cs ∧
      (∀ piece ∈ (pieces depth cs).modifyHead (token.reverse ++ ·), ¬Blank piece) ∧
      ((pieces depth cs).modifyHead (token.reverse ++ ·)).map strip = parts := by
  induction cs generalizing depth token parts with
  | nil =>
    rw [segments_nil_eq_ok_iff, closes_nil_iff, ne_eq, strip_eq_nil_iff]
    simp
  | cons c rest ih =>
    rcases unopened_or_passes depth c with ⟨rfl, rfl⟩ | ⟨depth', hpasses⟩
    · rw [segments_unopened]
      simp [not_closes_unopened]
    by_cases hcut : c = ',' ∧ depth = 0
    -- The characters since the last cut are a piece, and the rest starts with none.
    · obtain ⟨rfl, rfl⟩ := hcut
      rw [segments_cut_eq_ok_iff, closes_cons_iff (passes_comma 0), pieces_cut]
      simp only [ih]
      obtain ⟨first, others, hpieces⟩ := exists_pieces 0 rest
      simp only [hpieces, List.reverse_nil, List.nil_append, List.modifyHead_cons, List.append_nil,
        List.forall_mem_cons, List.map_cons]
      constructor
      · rintro ⟨hblank, _, ⟨hcloses, hpieces, rfl⟩, rfl⟩
        exact ⟨hcloses, ⟨hblank, hpieces⟩, rfl⟩
      · rintro ⟨hcloses, ⟨hblank, hpieces⟩, rfl⟩
        exact ⟨hblank, _, ⟨hcloses, hpieces, rfl⟩, rfl⟩
    -- The character goes from the head of the first piece to the end of those since the last cut.
    · rw [segments_of_passes hpasses hcut, ih, closes_cons_iff hpasses, pieces_cons hpasses,
        if_neg hcut, List.modifyHead_modifyHead]
      simp [Function.comp_def]

end Segments

/-! ### Arguments -/

/-- A text that the cuts leave whole. -/
structure Whole (depth : Nat) (cs : List Char) : Prop where
  closes : Closes depth cs
  uncut : Uncut depth cs

/-- A text that a block can have for an argument: not empty, without outer blanks, with its brackets
in pairs and all its commas inside them. -/
structure IsArgument (cs : List Char) : Prop where
  nonempty : cs ≠ []
  trimmed : Trimmed cs
  whole : Whole 0 cs

theorem whole_nil : Whole 0 [] := ⟨closes_nil_iff.mpr rfl, by simp [Uncut]⟩

theorem whole_cons_iff (h : Passes depth c depth') (hcut : ¬(c = ',' ∧ depth = 0)) :
    Whole depth (c :: rest) ↔ Whole depth' rest := by
  constructor
  · intro hcs
    exact ⟨(closes_cons_iff h).mp hcs.closes, (uncut_cons_iff h hcut).mp hcs.uncut⟩
  · intro hrest
    exact ⟨(closes_cons_iff h).mpr hrest.closes, (uncut_cons_iff h hcut).mpr hrest.uncut⟩

/-- No character of a whole text is a cut. -/
theorem Whole.passes (h : Whole depth (c :: rest)) :
    ∃ depth', Passes depth c depth' ∧ ¬(c = ',' ∧ depth = 0) ∧ Whole depth' rest := by
  have hcut : ¬(c = ',' ∧ depth = 0) := by
    rintro ⟨rfl, rfl⟩
    exact not_uncut_comma rest h.uncut
  rcases unopened_or_passes depth c with ⟨rfl, rfl⟩ | ⟨depth', hpasses⟩
  · exact absurd h.closes (not_closes_unopened rest)
  · exact ⟨depth', hpasses, hcut, (whole_cons_iff hpasses hcut).mp h⟩

/-- The pieces of a text whose brackets are closed are whole. -/
theorem whole_of_pieces {first : List Char} {others : List (List Char)} (h : Closes depth cs)
    (hpieces : pieces depth cs = first :: others) :
    Whole depth first ∧ ∀ piece ∈ others, Whole 0 piece := by
  induction cs generalizing depth first others with
  | nil =>
    obtain ⟨rfl, rfl⟩ := List.cons.inj hpieces
    obtain rfl := closes_nil_iff.mp h
    exact ⟨whole_nil, by simp⟩
  | cons c rest ih =>
    rcases unopened_or_passes depth c with ⟨rfl, rfl⟩ | ⟨depth', hpasses⟩
    · exact absurd h (not_closes_unopened rest)
    have hrest := (closes_cons_iff hpasses).mp h
    obtain ⟨next, after, hnext⟩ := exists_pieces depth' rest
    obtain ⟨hfirst, hothers⟩ := ih hrest hnext
    rw [pieces_cons hpasses, hnext] at hpieces
    split at hpieces
    · next hcut =>
      obtain ⟨rfl, rfl⟩ := hcut
      obtain ⟨rfl, rfl⟩ := List.cons.inj hpieces
      cases hpasses
      exact ⟨whole_nil, List.forall_mem_cons.mpr ⟨hfirst, hothers⟩⟩
    · next hcut =>
      obtain ⟨rfl, rfl⟩ := List.cons.inj hpieces
      exact ⟨(whole_cons_iff hpasses hcut).mpr hfirst, hothers⟩

theorem whole_of_mem_pieces (h : Balanced cs) : ∀ piece ∈ pieces 0 cs, Whole 0 piece := by
  obtain ⟨first, others, hpieces⟩ := exists_pieces 0 cs
  rw [hpieces, List.forall_mem_cons]
  exact whole_of_pieces h hpieces

/-- A whole text stays in one piece, whatever follows. -/
theorem Whole.pieces_append (h : Whole depth cs) (rest : List Char) :
    pieces depth (cs ++ rest) = (pieces 0 rest).modifyHead (cs ++ ·) := by
  induction cs generalizing depth with
  | nil =>
    obtain rfl := closes_nil_iff.mp h.closes
    cases hp : pieces 0 rest <;> simp [hp]
  | cons c cs ih =>
    obtain ⟨depth', hpasses, hcut, hcs⟩ := h.passes
    rw [List.cons_append, pieces_cons hpasses, if_neg hcut, ih hcs, List.modifyHead_modifyHead]
    rfl

theorem whole_blank_append_iff (hw : Blank w) : Whole depth (w ++ cs) ↔ Whole depth cs := by
  induction w with
  | nil => rfl
  | cons c w ih =>
    have hc : isMark c = false := isMark_of_isBlank (hw c List.mem_cons_self)
    have hcut : ¬(c = ',' ∧ depth = 0) := by
      rintro ⟨rfl, -⟩
      cases hc
    rw [List.cons_append, whole_cons_iff (passes_of_noMark hc depth) hcut]
    exact ih fun d hd => hw d (List.mem_cons_of_mem c hd)

theorem whole_append_blank_iff (hw : Blank w) : Whole depth (cs ++ w) ↔ Whole depth cs := by
  induction cs generalizing depth with
  | nil =>
    have h : Whole depth (w ++ []) ↔ Whole depth [] := whole_blank_append_iff hw
    rwa [List.append_nil] at h
  | cons c cs ih =>
    constructor
    · intro h
      obtain ⟨depth', hpasses, hcut, hcs⟩ := h.passes
      exact (whole_cons_iff hpasses hcut).mpr (ih.mp hcs)
    · intro h
      obtain ⟨depth', hpasses, hcut, hcs⟩ := h.passes
      exact (whole_cons_iff hpasses hcut).mpr (ih.mpr hcs)

def Pads (text cs : List Char) : Prop :=
  ∃ w w', Blank w ∧ Blank w' ∧ text = w ++ (cs ++ w')

theorem Pads.whole_iff {text : List Char} (h : Pads text cs) :
    Whole depth text ↔ Whole depth cs := by
  obtain ⟨w, w', hw, hw', rfl⟩ := h
  rw [whole_blank_append_iff hw, whole_append_blank_iff hw']

theorem pads_strip (cs : List Char) : Pads cs (strip cs) := exists_blanks_around_strip cs

theorem isArgument_strip (h : Whole 0 cs) (hne : ¬Blank cs) : IsArgument (strip cs) :=
  ⟨fun hnil => hne (strip_eq_nil_iff.mp hnil), trimmed_strip cs, (pads_strip cs).whole_iff.mp h⟩

theorem IsArgument.strip_eq {text : List Char} (h : IsArgument cs) (hpads : Pads text cs) :
    strip text = cs := by
  obtain ⟨w, w', hw, hw', rfl⟩ := hpads
  exact Text.strip_eq hw hw' h.trimmed

theorem padded_arguments {texts : List (List Char)} {parts : List String}
    (hpads : List.Forall₂ (fun text part => Pads text part.toList) texts parts)
    (hargs : ∀ part ∈ parts, IsArgument part.toList) :
    (∀ text ∈ texts, Whole 0 text ∧ ¬Blank text) ∧
      texts.map strip = parts.map String.toList := by
  induction hpads with
  | nil => simp
  | @cons text part texts parts hpad _ ih =>
    obtain ⟨harg, hargs⟩ := List.forall_mem_cons.mp hargs
    obtain ⟨hwhole, hstrip⟩ := ih hargs
    have htext := harg.strip_eq hpad
    have hblank : ¬Blank text := by
      rw [← strip_eq_nil_iff, htext]
      exact harg.nonempty
    refine ⟨List.forall_mem_cons.mpr ⟨⟨hpad.whole_iff.mpr harg.whole, hblank⟩, hwhole⟩, ?_⟩
    rw [List.map_cons, List.map_cons, htext, hstrip]

/-- Whole texts with commas between them are the pieces of what they make. -/
theorem pieces_intercalate {texts : List (List Char)} (hne : texts ≠ [])
    (h : ∀ text ∈ texts, Whole 0 text) :
    Balanced ([','].intercalate texts) ∧ pieces 0 ([','].intercalate texts) = texts := by
  induction texts with
  | nil => exact absurd rfl hne
  | cons text others ih =>
    obtain ⟨hfirst, hothers⟩ := List.forall_mem_cons.mp h
    cases others with
    | nil =>
      rw [List.intercalate_singleton]
      refine ⟨hfirst.closes, ?_⟩
      simpa using hfirst.pieces_append []
    | cons next others =>
      obtain ⟨hbalanced, hpieces⟩ := ih (by simp) hothers
      have hcomma : Balanced (',' :: [','].intercalate (next :: others)) :=
        (closes_cons_iff (passes_comma 0)).mpr hbalanced
      rw [List.intercalate_cons_cons, List.append_assoc, List.singleton_append]
      refine ⟨hfirst.closes.append hcomma, ?_⟩
      rw [hfirst.pieces_append, pieces_cut, hpieces, List.modifyHead_cons, List.append_nil]

theorem splitArguments_eq_ok_iff {block : String} {source : Option String} {parts : List String} :
    splitArguments block source = .ok parts ↔
      Balanced block.toList ∧ (∀ piece ∈ pieces 0 block.toList, ¬Blank piece) ∧
      (pieces 0 block.toList).map strip = parts.map String.toList := by
  obtain ⟨first, others, hpieces⟩ := exists_pieces 0 block.toList
  rw [splitArguments, map_eq_ok_iff]
  simp only [segments_eq_ok_iff, hpieces, List.reverse_nil, List.nil_append, List.modifyHead_cons]
  constructor
  · rintro ⟨_, ⟨hbalanced, hblank, rfl⟩, rfl⟩
    exact ⟨hbalanced, hblank, by simp [Function.comp_def]⟩
  · rintro ⟨hbalanced, hblank, hparts⟩
    exact ⟨_, ⟨hbalanced, hblank, rfl⟩, by simp [hparts, Function.comp_def]⟩

/-- Cutting fails exactly where brackets are not in pairs or a piece is blank; otherwise it gives
the arguments between the outer commas.  Whatever arguments a block is made of, with any blanks
around them, are found again. -/
theorem splitArguments_cuts_at_outer_commas (source : Option String) :
    (∀ block : String,
      ((∃ parts, splitArguments block source = .ok parts) ↔
        Balanced block.toList ∧ ∀ piece ∈ pieces 0 block.toList, ¬Blank piece) ∧
      ∀ parts, splitArguments block source = .ok parts →
        parts.map String.toList = (pieces 0 block.toList).map strip ∧
        ∀ part ∈ parts, IsArgument part.toList) ∧
    ∀ (parts : List String) (texts : List (List Char)), parts ≠ [] →
      (∀ part ∈ parts, IsArgument part.toList) →
      List.Forall₂ (fun text part => Pads text part.toList) texts parts →
      splitArguments (String.ofList ([','].intercalate texts)) source = .ok parts := by
  refine ⟨fun block => ⟨⟨?_, ?_⟩, fun parts h => ?_⟩, fun parts texts hne hargs hpads => ?_⟩
  · rintro ⟨parts, h⟩
    obtain ⟨hbalanced, hblank, -⟩ := splitArguments_eq_ok_iff.mp h
    exact ⟨hbalanced, hblank⟩
  · rintro ⟨hbalanced, hblank⟩
    refine ⟨((pieces 0 block.toList).map strip).map String.ofList, ?_⟩
    rw [splitArguments_eq_ok_iff]
    exact ⟨hbalanced, hblank, by simp [Function.comp_def]⟩
  · obtain ⟨hbalanced, hblank, hparts⟩ := splitArguments_eq_ok_iff.mp h
    refine ⟨hparts.symm, fun part hpart => ?_⟩
    have hmem : part.toList ∈ (pieces 0 block.toList).map strip := by
      rw [hparts]
      exact List.mem_map_of_mem hpart
    obtain ⟨piece, hpiece, hstrip⟩ := List.mem_map.mp hmem
    rw [← hstrip]
    exact isArgument_strip (whole_of_mem_pieces hbalanced piece hpiece) (hblank piece hpiece)
  · obtain ⟨htexts, hstrip⟩ := padded_arguments hpads hargs
    have htextsNe : texts ≠ [] := by
      rintro rfl
      exact hne (List.forall₂_nil_left_iff.mp hpads)
    obtain ⟨hbalanced, hpieces⟩ := pieces_intercalate htextsNe fun text h => (htexts text h).1
    rw [splitArguments_eq_ok_iff, String.toList_ofList, hpieces]
    exact ⟨hbalanced, fun text h => (htexts text h).2, hstrip⟩

/-- The parts of one block, joined again with other blanks. -/
theorem splitArguments_cuts_at_outer_commas_nested :
    let parts := ["pair<int, str>", "list<set<a>>"]
    splitArguments "pair<int, str>,list<set<a>>" none = .ok parts ∧
    (∀ part ∈ parts, IsArgument part.toList) ∧
    splitArguments " pair<int, str>\t,  list<set<a>>" none = .ok parts := by
  intro parts
  obtain ⟨hcut, hjoin⟩ := splitArguments_cuts_at_outer_commas none
  have hparts : splitArguments "pair<int, str>,list<set<a>>" none = .ok parts := by decide +kernel
  have hargs : ∀ part ∈ parts, IsArgument part.toList := ((hcut _).2 parts hparts).2
  have hblank : ∀ w ∈ [[' '], ['\t'], [' ', ' '], []], Blank w := by
    simp [Blank, isBlank]
  have hpads : List.Forall₂ (fun text part => Pads text part.toList)
      [" pair<int, str>\t".toList, "  list<set<a>>".toList] parts :=
    .cons ⟨[' '], ['\t'], hblank _ (by simp), hblank _ (by simp), by decide⟩
      (.cons ⟨[' ', ' '], [], hblank _ (by simp), hblank _ (by simp), by decide⟩ .nil)
  have hjoined : String.ofList ([','].intercalate
      [" pair<int, str>\t".toList, "  list<set<a>>".toList]) =
      " pair<int, str>\t,  list<set<a>>" := by decide
  have hagain := hjoin parts _ (by simp [parts]) hargs hpads
  rw [hjoined] at hagain
  exact ⟨hparts, hargs, hagain⟩

end TypeTree
end Patchbay
