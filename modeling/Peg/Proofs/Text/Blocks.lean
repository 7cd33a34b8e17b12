import Mathlib
import Peg.Proofs.Text.Columns
import Peg.Text.Source

/-!
# Indented blocks

A line is as wide as the column that its leading blanks reach.  A line that takes part closes the
open blocks that are wider than it, and opens a block if it is still wider than what remains; its
markers stand behind its leading blanks.  At the end of the text all blocks are closed.  So the
markers nest: the open blocks get wider from the outermost to the innermost, the innermost one is
as wide as the last line that took part, and no block is closed that is not open.

Main results:

- `annotatedText_annotateLines`: which markers a text gets, and where.
- `eq_line_of_splitLines`: lines end with line feeds.
- `Source.followsBlocks_withLayout`: the markers follow the blocks.
-/

namespace Peg.Text

/-- What patterns see of two parts is what they see of each. -/
theorem annotatedText_append (front back : List Segment) :
    annotatedText (front ++ back) = annotatedText front ++ annotatedText back :=
  List.flatMap_append

namespace Layout

variable {options : LayoutOptions} {levels : List Nat} {width : Nat}
variable {text line front back : List Char} {lines : List (List Char)}

/-! ## Lines -/

/-- A line has its line feed at the end, which only the last line may lack. -/
theorem eq_line_of_splitLines {front back : List (List Char)}
    (h : splitLines text = front ++ line :: back) :
    ∃ body, '\n' ∉ body ∧ (line = body ++ ['\n'] ∨ line = body ∧ body ≠ [] ∧ back = []) := by
  induction text generalizing front line back with
  | nil => simp [splitLines] at h
  | cons c text ih =>
      rw [splitLines] at h
      split at h
      next hfeed =>
          cases front with
          | nil =>
              obtain ⟨rfl, rfl⟩ := List.cons.inj h
              exact ⟨[], List.not_mem_nil, .inl (by rw [hfeed]; rfl)⟩
          | cons first front => exact ih (List.cons.inj h).2
      next hplain =>
          cases hlines : splitLines text with
          | nil =>
              rw [hlines] at h
              cases front with
              | nil =>
                  obtain ⟨rfl, rfl⟩ := List.cons.inj h
                  exact ⟨[c], by simpa using Ne.symm hplain, .inr ⟨rfl, by simp, rfl⟩⟩
              | cons first front => simp at h
          | cons first lines =>
              rw [hlines] at h
              cases front with
              | nil =>
                  obtain ⟨rfl, rfl⟩ := List.cons.inj h
                  have hfirst : splitLines text = [] ++ first :: lines := hlines
                  rcases ih hfirst with ⟨body, hbody, hline⟩
                  have hcons : '\n' ∉ c :: body := by simp [Ne.symm hplain, hbody]
                  rcases hline with rfl | ⟨rfl, -, rfl⟩
                  · exact ⟨c :: body, hcons, .inl rfl⟩
                  · exact ⟨c :: first, hcons, .inr ⟨rfl, by simp, rfl⟩⟩
              | cons _ front =>
                  obtain ⟨-, rfl⟩ := List.cons.inj h
                  have hlater : splitLines text = (first :: front) ++ line :: back := hlines
                  exact ih hlater

/-- The blanks that indent a line. -/
def leading (line : List Char) : List Char :=
  line.takeWhile indents

/-- A line without the blanks that indent it. -/
def content (line : List Char) : List Char :=
  line.dropWhile indents

/-- A line is its leading blanks and the rest of it. -/
theorem leading_append_content (line : List Char) : leading line ++ content line = line :=
  List.takeWhile_append_dropWhile

/-- The width of a line. -/
def lineWidth (options : LayoutOptions) (line : List Char) : Nat :=
  Layout.width options.tabWidth (leading line)

/-- A line takes part in opening and closing blocks. -/
def TakesPart (options : LayoutOptions) (line : List Char) : Prop :=
  options.skipBlankLines = false ∨ ∃ c ∈ line, isBlank c = false

-- The characters of the line are searched, not all characters.
instance (options : LayoutOptions) (line : List Char) : Decidable (TakesPart options line) :=
  @instDecidableOr _ _ _ (List.decidableBEx _ line)

/-- What indents is blank. -/
theorem isBlank_of_indents {c : Char} (h : indents c = true) : isBlank c = true := by
  rcases indents_eq_true_iff.1 h with rfl | rfl <;> rfl

/-- What is left of a line behind its leading blanks is blank exactly if the line is. -/
theorem all_isBlank_content (line : List Char) :
    (content line).all isBlank = true ↔ ∀ c ∈ line, isBlank c = true := by
  rw [List.all_eq_true]
  constructor
  · intro h c hc
    rw [← leading_append_content line] at hc
    rcases List.mem_append.1 hc with hleading | hcontent
    · exact isBlank_of_indents (List.mem_takeWhile_imp hleading)
    · exact h c hcontent
  · exact fun h c hc => h c ((List.dropWhile_sublist indents).mem hc)

/-- Which lines are left out. -/
theorem not_takesPart_iff :
    ¬ TakesPart options line ↔ (options.skipBlankLines && (content line).all isBlank) = true := by
  rw [TakesPart, Bool.and_eq_true, all_isBlank_content]
  simp

/-! ## Open blocks -/

/-- The widths of the blocks that are open behind a line of some width, innermost first: those
that are no wider than the line, and the block that it opens, if it does. -/
def reopen (levels : List Nat) (width : Nat) : List Nat :=
  if (levels.filter (· ≤ width)).headD 0 < width then width :: levels.filter (· ≤ width)
  else levels.filter (· ≤ width)

/-- The markers of a line of some width: it closes the blocks that are wider, and opens one if it
is wider than the innermost block that remains. -/
def run (levels : List Nat) (width : Nat) : List Char :=
  List.replicate (levels.countP (width < ·)) dedentMark ++
    if (levels.filter (· ≤ width)).headD 0 < width then [indentMark] else []

/-- The blocks that are open behind a line. -/
def openBehind (options : LayoutOptions) (levels : List Nat) (line : List Char) : List Nat :=
  if TakesPart options line then reopen levels (lineWidth options line) else levels

/-- The markers of a line. -/
def lineRun (options : LayoutOptions) (levels : List Nat) (line : List Char) : List Char :=
  if TakesPart options line then run levels (lineWidth options line) else []

/-- The blocks that are open behind lines. -/
def blocks (options : LayoutOptions) (levels : List Nat) (lines : List (List Char)) : List Nat :=
  lines.foldl (openBehind options) levels

/-- Lines with their markers, each behind the leading blanks of its line. -/
def marked (options : LayoutOptions) : List Nat → List (List Char) → List Char
  | _, [] => []
  | levels, line :: lines =>
    leading line ++ (lineRun options levels line ++
      (content line ++ marked options (openBehind options levels line) lines))

/-- The blocks get wider from the outermost to the innermost, which comes first. -/
structure Nested (levels : List Nat) : Prop where
  descending : levels.Pairwise (· > ·)
  pos : ∀ level ∈ levels, 0 < level

theorem nested_nil : Nested [] :=
  ⟨.nil, nofun⟩

/-- No block is wider than the innermost. -/
theorem Nested.le_headD (h : Nested levels) : ∀ level ∈ levels, level ≤ levels.headD 0 := by
  cases levels with
  | nil => nofun
  | cons first levels =>
      intro level hlevel
      rcases List.mem_cons.1 hlevel with rfl | hlater
      · exact Nat.le_refl _
      · exact Nat.le_of_lt (List.rel_of_pairwise_cons h.descending hlater)

/-- Blocks that are left out leave the others nested. -/
theorem Nested.filter (h : Nested levels) (p : Nat → Bool) : Nested (levels.filter p) where
  descending := h.descending.sublist List.filter_sublist
  pos level hlevel := h.pos level (List.mem_filter.1 hlevel).1

/-- A line opens a block only if it is wider than all that remain. -/
theorem Nested.reopen (h : Nested levels) (width : Nat) : Nested (reopen levels width) := by
  have hrest := h.filter (· ≤ width)
  unfold Layout.reopen
  split
  next hwider =>
      have hless : ∀ level ∈ levels.filter (· ≤ width), level < width := fun level hlevel =>
        Nat.lt_of_le_of_lt (hrest.le_headD level hlevel) hwider
      exact ⟨List.pairwise_cons.2 ⟨hless, hrest.descending⟩,
        List.forall_mem_cons.2 ⟨Nat.zero_lt_of_lt hwider, hrest.pos⟩⟩
  next => exact hrest

/-- Behind a line the innermost block is as wide as the line. -/
theorem headD_reopen (levels : List Nat) (width : Nat) : (reopen levels width).headD 0 = width := by
  unfold reopen
  split
  next => rfl
  next hnot =>
      have hle : (levels.filter (· ≤ width)).headD 0 ≤ width := by
        cases hrest : levels.filter (· ≤ width) with
        | nil => exact Nat.zero_le _
        | cons first rest =>
            have hfirst : first ∈ levels.filter (· ≤ width) := hrest ▸ List.mem_cons_self
            simpa using (List.mem_filter.1 hfirst).2
      omega

/-- The blocks are nested behind a line, whether it takes part or not. -/
theorem Nested.openBehind (h : Nested levels) (line : List Char) :
    Nested (openBehind options levels line) := by
  unfold Layout.openBehind
  split
  next => exact h.reopen _
  next => exact h

/-- The blocks are nested behind any number of lines. -/
theorem Nested.blocks (h : Nested levels) (lines : List (List Char)) :
    Nested (blocks options levels lines) := by
  induction lines generalizing levels with
  | nil => exact h
  | cons line lines ih => exact ih (h.openBehind line)

/-- The wider blocks are those on top. -/
theorem Nested.dropWhile_eq_filter (h : Nested levels) (width : Nat) :
    levels.dropWhile (width < ·) = levels.filter (· ≤ width) := by
  have hpairs := h.descending
  clear h
  induction levels with
  | nil => rfl
  | cons level levels ih =>
      rw [List.pairwise_cons] at hpairs
      by_cases hwider : width < level
      · rw [List.dropWhile_cons_of_pos (by simpa using hwider),
          List.filter_cons_of_neg (by simpa using hwider), ih hpairs.2]
      · have hall : ∀ other ∈ level :: levels, other ≤ width := by
          refine List.forall_mem_cons.2 ⟨Nat.not_lt.1 hwider, fun other hother => ?_⟩
          have hless := hpairs.1 other hother
          omega
        rw [List.dropWhile_cons_of_neg (by simpa using hwider),
          List.filter_eq_self.2 fun other hother => by simpa using hall other hother]

/-- Each block is wider than the line, or remains. -/
theorem countP_add_length_filter (levels : List Nat) (width : Nat) :
    levels.countP (width < ·) + (levels.filter (· ≤ width)).length = levels.length := by
  rw [← List.countP_eq_length_filter, List.length_eq_countP_add_countP (width < ·)]
  congr 1
  exact List.countP_congr fun level _ => by simp

/-- What a line closes and opens. -/
theorem Nested.adjust_eq (h : Nested levels) (width : Nat) :
    adjust levels width = (Layout.reopen levels width, run levels width) := by
  have hcount := countP_add_length_filter levels width
  have hclosing : levels.length - (levels.filter (· ≤ width)).length =
      levels.countP (width < ·) := by omega
  unfold adjust
  dsimp only
  rw [h.dropWhile_eq_filter, hclosing, Layout.reopen, run]
  split
  next => rfl
  next => rw [List.append_nil]

/-! ## Annotated lines -/

/-- How a line is annotated, in terms of its blanks, its content and its width. -/
theorem annotateLine_eq (options : LayoutOptions) (levels : List Nat) (line : List Char) :
    annotateLine options levels line =
      if options.skipBlankLines && (content line).all isBlank then (levels, [.kept line])
      else
        ((adjust levels (lineWidth options line)).1,
          [.kept (leading line), .inserted (adjust levels (lineWidth options line)).2,
            .kept (content line)]) :=
  rfl

/-- A line that takes part has its markers between its blanks and its content. -/
theorem annotateLine_of_takesPart (h : Nested levels) (hline : TakesPart options line) :
    annotateLine options levels line =
      (openBehind options levels line,
        [.kept (leading line), .inserted (lineRun options levels line), .kept (content line)]) := by
  have htakes : (options.skipBlankLines && (content line).all isBlank) = false :=
    Bool.eq_false_iff.2 fun hskip => not_takesPart_iff.2 hskip hline
  rw [openBehind, lineRun, if_pos hline, if_pos hline, annotateLine_eq, htakes, h.adjust_eq]
  rfl

/-- A line that does not take part is kept as it is, and so are the blocks. -/
theorem annotateLine_of_not_takesPart (hline : ¬ TakesPart options line) :
    annotateLine options levels line = (openBehind options levels line, [.kept line]) := by
  rw [openBehind, if_neg hline, annotateLine_eq, if_pos (not_takesPart_iff.1 hline)]

/-- The blocks that are carried on behind a line are those that it leaves open. -/
theorem Nested.fst_annotateLine (h : Nested levels) (line : List Char) :
    (annotateLine options levels line).1 = Layout.openBehind options levels line := by
  by_cases hline : TakesPart options line
  · rw [annotateLine_of_takesPart h hline]
  · rw [annotateLine_of_not_takesPart hline]

/-- What patterns see of a line, with no markers if it does not take part. -/
theorem Nested.annotatedText_annotateLine (h : Nested levels) (line : List Char) :
    annotatedText (annotateLine options levels line).2 =
      leading line ++ (lineRun options levels line ++ content line) := by
  by_cases hline : TakesPart options line
  · rw [annotateLine_of_takesPart h hline]
    simp [annotatedText, Segment.chars]
  · rw [annotateLine_of_not_takesPart hline, lineRun, if_neg hline, List.nil_append,
      leading_append_content]
    simp [annotatedText, Segment.chars]

theorem annotateLines_cons (options : LayoutOptions) (levels : List Nat) (line : List Char)
    (lines : List (List Char)) :
    annotateLines options levels (line :: lines) =
      (annotateLine options levels line).2 ++
        annotateLines options (annotateLine options levels line).1 lines :=
  rfl

/-- Lines get their markers, and the end closes all blocks. -/
theorem Nested.annotatedText_annotateLines (h : Nested levels) (lines : List (List Char)) :
    annotatedText (annotateLines options levels lines) =
      marked options levels lines ++
        List.replicate (Layout.blocks options levels lines).length dedentMark := by
  induction lines generalizing levels with
  | nil => exact List.append_nil _
  | cons line lines ih =>
      rw [annotateLines_cons, annotatedText_append, h.annotatedText_annotateLine,
        h.fst_annotateLine, ih (h.openBehind line), marked]
      simp only [List.append_assoc]
      rfl

/-- Later lines get their markers from the blocks that earlier ones leave open. -/
theorem marked_append (front back : List (List Char)) :
    marked options levels (front ++ back) =
      marked options levels front ++ marked options (blocks options levels front) back := by
  induction front generalizing levels with
  | nil => rfl
  | cons line front ih =>
      rw [List.cons_append, marked, marked, ih]
      simp only [List.append_assoc]
      rfl

/-! ## Where markers stand -/

/-- A character is a marker. -/
def IsMark (c : Char) : Prop :=
  c = indentMark ∨ c = dedentMark

/-- A text has no markers in it. -/
def Unmarked (text : List Char) : Prop :=
  ∀ c ∈ text, ¬ IsMark c

theorem unmarked_nil : Unmarked [] :=
  fun _ hc => absurd hc List.not_mem_nil

/-- A character of a text in two parts is in the former or in the latter. -/
theorem eq_or_eq_of_append_eq {before after : List Char} {c : Char}
    (h : front ++ back = before ++ c :: after) :
    (∃ rest, front = before ++ c :: rest) ∨
      ∃ done, before = front ++ done ∧ back = done ++ c :: after := by
  rcases List.append_eq_append_iff.1 h with ⟨done, rfl, hback⟩ | ⟨rest, rfl, hlater⟩
  · exact .inr ⟨done, rfl, hback⟩
  · cases rest with
    | nil => exact .inr ⟨[], by simp, hlater.symm⟩
    | cons d rest =>
        obtain ⟨rfl, -⟩ := List.cons.inj hlater
        exact .inl ⟨rest, rfl⟩

/-- A marker behind text without markers is found in what follows. -/
theorem Unmarked.exists_of_append (h : Unmarked front) {before after : List Char} {c : Char}
    (hsplit : front ++ back = before ++ c :: after) (hc : IsMark c) :
    ∃ done, before = front ++ done ∧ back = done ++ c :: after := by
  rcases eq_or_eq_of_append_eq hsplit with ⟨rest, rfl⟩ | hlater
  · exact absurd hc (h c (List.mem_append_right _ List.mem_cons_self))
  · exact hlater

/-- A part of a text has no other characters than the text. -/
theorem Unmarked.of_subset (h : Unmarked text) {part : List Char} (hpart : part ⊆ text) :
    Unmarked part :=
  fun c hc => h c (hpart hc)

/-- Every marker belongs to the run of a line that takes part, or to those at the end. -/
theorem exists_line_of_mark (hlines : ∀ line ∈ lines, Unmarked line)
    {closing before after : List Char} {c : Char}
    (hsplit : marked options levels lines ++ closing = before ++ c :: after)
    (hc : IsMark c) :
    (∃ front line back done rest, lines = front ++ line :: back ∧ TakesPart options line ∧
      lineRun options (blocks options levels front) line = done ++ c :: rest ∧
      before = marked options levels front ++ (leading line ++ done)) ∨
    ∃ done, closing = done ++ c :: after ∧ before = marked options levels lines ++ done := by
  induction lines generalizing levels before with
  | nil => exact .inr ⟨before, hsplit, rfl⟩
  | cons line lines ih =>
      have hline := hlines line List.mem_cons_self
      have hleading : Unmarked (leading line) :=
        hline.of_subset (List.takeWhile_sublist _).subset
      have hcontent : Unmarked (content line) := hline.of_subset (List.dropWhile_sublist _).subset
      rw [marked, List.append_assoc] at hsplit
      -- The marker is not in the leading blanks, so it is in the run of the line or behind it.
      rcases hleading.exists_of_append hsplit hc with ⟨inner, rfl, hrun⟩
      rw [List.append_assoc] at hrun
      rcases eq_or_eq_of_append_eq hrun with ⟨rest, hin⟩ | ⟨later, rfl, hrest⟩
      · have htakes : TakesPart options line := by
          by_contra hnot
          rw [lineRun, if_neg hnot] at hin
          exact List.append_ne_nil_of_right_ne_nil inner (List.cons_ne_nil c rest) hin.symm
        exact .inl ⟨[], line, lines, inner, rest, rfl, htakes, hin, rfl⟩
      · rw [List.append_assoc] at hrest
        rcases hcontent.exists_of_append hrest hc with ⟨done, rfl, hlast⟩
        rcases ih (fun _ h => hlines _ (List.mem_cons_of_mem _ h)) hlast with
          ⟨front, other, back, done', rest, rfl, htakes, hmarks, rfl⟩ | ⟨done', hclosing, rfl⟩
        · refine .inl ⟨line :: front, other, back, done', rest, rfl, htakes, hmarks, ?_⟩
          rw [marked]
          simp only [List.append_assoc]
        · refine .inr ⟨done', hclosing, ?_⟩
          rw [marked]
          simp only [List.append_assoc]

/-! ## Opening and closing -/

/-- Markers lead from a number of open blocks to another, and close none on the way that is not
open. -/
structure Leads (opened : Nat) (text : List Char) (left : Nat) : Prop where
  within : ∀ before after, text = before ++ after →
    before.count dedentMark ≤ opened + before.count indentMark
  total : opened + text.count indentMark = left + text.count dedentMark

/-- Markers that lead somewhere, and others that lead on from there. -/
theorem Leads.append {opened middle left : Nat} (h : Leads opened front middle)
    (hback : Leads middle back left) : Leads opened (front ++ back) left where
  within before after hsplit := by
    rcases List.append_eq_append_iff.1 hsplit with ⟨done, rfl, hrest⟩ | ⟨rest, rfl, -⟩
    · have hdone := hback.within done after hrest
      have htotal := h.total
      rw [List.count_append, List.count_append]
      omega
    · exact h.within before rest rfl
  total := by
    have htotal := h.total
    have hlater := hback.total
    rw [List.count_append, List.count_append]
    omega

/-- Text without markers opens and closes nothing. -/
theorem Unmarked.leads (h : Unmarked text) (opened : Nat) : Leads opened text opened := by
  have hnone : ∀ part, part ⊆ text → part.count dedentMark = 0 ∧ part.count indentMark = 0 :=
    fun part hpart => ⟨List.count_eq_zero.2 fun hmem => h _ (hpart hmem) (.inr rfl),
      List.count_eq_zero.2 fun hmem => h _ (hpart hmem) (.inl rfl)⟩
  constructor
  · intro before after hsplit
    have hbefore := (hnone before (hsplit ▸ List.subset_append_left before after)).1
    omega
  · rw [(hnone text (List.Subset.refl text)).1, (hnone text (List.Subset.refl text)).2]

theorem indentMark_ne_dedentMark : indentMark ≠ dedentMark := by
  decide

/-- Closing markers close as many blocks as there are markers. -/
theorem leads_closing (count left : Nat) :
    Leads (count + left) (List.replicate count dedentMark) left where
  within before after hsplit := by
    have hcount : before.count dedentMark ≤ (List.replicate count dedentMark).count dedentMark := by
      rw [hsplit, List.count_append]
      exact Nat.le_add_right _ _
    rw [List.count_replicate_self] at hcount
    omega
  total := by
    rw [List.count_replicate_self, List.count_replicate,
      if_neg (by simpa using indentMark_ne_dedentMark.symm)]
    omega

/-- An opening marker opens one block. -/
theorem leads_opening (opened : Nat) : Leads opened [indentMark] (opened + 1) where
  within before after hsplit := by
    have hcount : before.count dedentMark ≤ [indentMark].count dedentMark := by
      rw [hsplit, List.count_append]
      exact Nat.le_add_right _ _
    rw [List.count_singleton, if_neg (by simpa using indentMark_ne_dedentMark)] at hcount
    omega
  total := by
    rw [List.count_singleton_self, List.count_singleton,
      if_neg (by simpa using indentMark_ne_dedentMark)]

/-- The markers of a line lead from the blocks in front of it to those behind it. -/
theorem leads_run (levels : List Nat) (width : Nat) :
    Leads levels.length (run levels width) (reopen levels width).length := by
  have hclosing := leads_closing (levels.countP (width < ·)) (levels.filter (· ≤ width)).length
  rw [countP_add_length_filter] at hclosing
  refine hclosing.append ?_
  unfold reopen
  split
  next => exact leads_opening _
  next => exact unmarked_nil.leads _

/-- The same for a line that may not take part and then has no markers. -/
theorem leads_lineRun (levels : List Nat) (line : List Char) :
    Leads levels.length (lineRun options levels line) (openBehind options levels line).length := by
  unfold lineRun openBehind
  split
  next => exact leads_run levels _
  next => exact unmarked_nil.leads _

/-- The markers of lines lead from the blocks in front of them to those behind them. -/
theorem leads_marked (hlines : ∀ line ∈ lines, Unmarked line) :
    Leads levels.length (marked options levels lines) (blocks options levels lines).length := by
  induction lines generalizing levels with
  | nil => exact unmarked_nil.leads _
  | cons line lines ih =>
      have hline := hlines line List.mem_cons_self
      have hleading : Unmarked (leading line) :=
        hline.of_subset (List.takeWhile_sublist _).subset
      have hcontent : Unmarked (content line) := hline.of_subset (List.dropWhile_sublist _).subset
      exact (hleading.leads _).append ((leads_lineRun levels line).append
        ((hcontent.leads _).append (ih fun _ h => hlines _ (List.mem_cons_of_mem _ h))))

/-! ## Texts -/

/-- The markers in an annotated text follow the blocks of the text. -/
structure FollowsBlocks (options : LayoutOptions) (text annotated : List Char) : Prop where
  /-- The leading blanks of a line are all the spaces and tabs in front of anything else. -/
  blanks : ∀ line ∈ splitLines text, leading line ++ content line = line ∧
    (∀ c ∈ leading line, c = ' ' ∨ c = '\t') ∧ ∀ c ∈ (content line).head?, c ≠ ' ' ∧ c ≠ '\t'
  /-- A line is as wide as the column that its leading blanks reach from tab stop to tab stop,
  counted in 64-bit words. -/
  widths : ∀ line ∈ splitLines text,
    Reaches options.tabWidth (· % 2 ^ 64) (leading line) (lineWidth options line)
  /-- It is as wide as the column itself, if that fits into 64 bits. -/
  widths_eq : ∀ line ∈ splitLines text, ∃ column,
    Reaches options.tabWidth id (leading line) column ∧
      (column < 2 ^ 64 → lineWidth options line = column)
  /-- The text is made of lines, which end with line feeds. -/
  lines : (splitLines text).flatten = text ∧
    ∀ front line back, splitLines text = front ++ line :: back →
      ∃ body, '\n' ∉ body ∧ (line = body ++ ['\n'] ∨ line = body ∧ body ≠ [] ∧ back = [])
  /-- Each line has its markers behind its leading blanks, and the end closes all blocks. -/
  text_eq : annotated = marked options [] (splitLines text) ++
    List.replicate (blocks options [] (splitLines text)).length dedentMark
  /-- There are no other markers. -/
  no_other : ∀ before c after, annotated = before ++ c :: after → IsMark c →
    (∃ front line back done rest, splitLines text = front ++ line :: back ∧
      TakesPart options line ∧
      run (blocks options [] front) (lineWidth options line) = done ++ c :: rest ∧
      before = marked options [] front ++ (leading line ++ done)) ∨
    ∃ done, List.replicate (blocks options [] (splitLines text)).length dedentMark =
        done ++ c :: after ∧
      before = marked options [] (splitLines text) ++ done
  /-- Behind any lines, the open blocks get wider from the outermost to the innermost. -/
  nested : ∀ front back, splitLines text = front ++ back → Nested (blocks options [] front)
  /-- The innermost one is as wide as the last line that took part. -/
  innermost : ∀ front line quiet back, splitLines text = front ++ line :: quiet ++ back →
    TakesPart options line → (∀ other ∈ quiet, ¬ TakesPart options other) →
    (blocks options [] (front ++ line :: quiet)).headD 0 = lineWidth options line
  /-- No block is closed that is not open. -/
  dedents_le : ∀ before after, annotated = before ++ after →
    before.count dedentMark ≤ before.count indentMark
  /-- Every block is closed. -/
  dedents_eq : annotated.count dedentMark = annotated.count indentMark

/-- Lines that do not take part open and close nothing. -/
theorem blocks_of_not_takesPart {quiet : List (List Char)}
    (h : ∀ line ∈ quiet, ¬ TakesPart options line) : blocks options levels quiet = levels := by
  induction quiet with
  | nil => rfl
  | cons line quiet ih =>
      rcases List.forall_mem_cons.1 h with ⟨hline, hquiet⟩
      rw [blocks, List.foldl_cons, openBehind, if_neg hline]
      exact ih hquiet

/-- Later lines start with the blocks that earlier ones leave open. -/
theorem blocks_append (front back : List (List Char)) :
    blocks options levels (front ++ back) = blocks options (blocks options levels front) back :=
  List.foldl_append

/-- The lines of a text have no other characters than the text. -/
theorem unmarked_of_mem_splitLines (h : Unmarked text) (hline : line ∈ splitLines text) :
    Unmarked line := by
  refine h.of_subset fun c hc => ?_
  rw [← flatten_splitLines text]
  exact List.mem_flatten.2 ⟨line, hline, hc⟩

/-- The leading blanks of a line are blanks. -/
theorem indents_of_mem_leading (line : List Char) : ∀ c ∈ leading line, indents c = true :=
  fun _ => List.mem_takeWhile_imp

/-- The rest of a line does not begin with a blank. -/
theorem indents_head_content (line : List Char) :
    ∀ c ∈ (content line).head?, indents c = false := by
  intro c hc
  have hfirst := List.head?_dropWhile_not indents line
  rw [← content, Option.mem_def.1 hc] at hfirst
  simpa using hfirst

/-- The markers of a text without marker characters of its own follow its blocks. -/
theorem followsBlocks_annotate (options : LayoutOptions) (h : Unmarked text) :
    FollowsBlocks options text (annotatedText (annotate options text)) := by
  have htext : annotatedText (annotate options text) = _ :=
    nested_nil.annotatedText_annotateLines (splitLines text)
  have hlines : ∀ line ∈ splitLines text, Unmarked line := fun line hline =>
    unmarked_of_mem_splitLines h hline
  have hclosing := leads_closing (blocks options [] (splitLines text)).length 0
  rw [Nat.add_zero] at hclosing
  have hleads : Leads 0 (annotatedText (annotate options text)) 0 :=
    htext ▸ (leads_marked hlines).append hclosing
  constructor
  · intro line _
    refine ⟨leading_append_content line, fun c hc => ?_, fun c hc => ?_⟩
    · exact indents_eq_true_iff.1 (indents_of_mem_leading line c hc)
    · have hother := indents_head_content line c hc
      rw [← Bool.not_eq_true, indents_eq_true_iff] at hother
      exact not_or.1 hother
  · exact fun line _ => (reaches_iff_width (indents_of_mem_leading line)).2 rfl
  · intro line _
    rcases exists_reaches options.tabWidth id (indents_of_mem_leading line) with
      ⟨column, hcolumn⟩
    exact ⟨column, hcolumn, hcolumn.width_eq⟩
  · exact ⟨flatten_splitLines text, fun _ _ _ => eq_line_of_splitLines⟩
  · exact htext
  · intro before c after hsplit hc
    rw [htext] at hsplit
    rcases exists_line_of_mark hlines hsplit hc with
      ⟨front, line, back, done, rest, hcut, htakes, hrun, hbefore⟩ | hend
    · rw [lineRun, if_pos htakes] at hrun
      exact .inl ⟨front, line, back, done, rest, hcut, htakes, hrun, hbefore⟩
    · exact .inr hend
  · exact fun front back hsplit => nested_nil.blocks front
  · intro front line quiet back hsplit htakes hquiet
    have hcons : blocks options (blocks options [] front) (line :: quiet) =
        blocks options (openBehind options (blocks options [] front) line) quiet := rfl
    rw [blocks_append, hcons, blocks_of_not_takesPart hquiet, openBehind, if_pos htakes,
      headD_reopen]
  · intro before after hsplit
    have hwithin := hleads.within before after hsplit
    omega
  · have htotal := hleads.total
    omega

end Layout

/-- In a text that has no marker characters of its own, the markers of indentation follow the
blocks. -/
theorem Source.followsBlocks_withLayout (options : LayoutOptions) {text : List Char}
    (hindent : indentMark ∉ text) (hdedent : dedentMark ∉ text) :
    Layout.FollowsBlocks options text (withLayout options text).text := by
  refine Layout.followsBlocks_annotate options fun c hc hmark => ?_
  rcases hmark with rfl | rfl
  · exact hindent hc
  · exact hdedent hc

/-- Blocks are opened at a tab stop behind a space, and by blanks alone, and both are closed by a
line that is still indented. -/
theorem Source.followsBlocks_staircase :
    (indentMark ∉ "a\n \tb\n\t\t \n  c".toList ∧ dedentMark ∉ "a\n \tb\n\t\t \n  c".toList) ∧
      Layout.FollowsBlocks ⟨3, false⟩ "a\n \tb\n\t\t \n  c".toList
        (withLayout ⟨3, false⟩ "a\n \tb\n\t\t \n  c".toList).text ∧
      (withLayout ⟨3, false⟩ "a\n \tb\n\t\t \n  c".toList).text =
        "a\n \t".toList ++ indentMark :: "b\n\t\t ".toList ++ indentMark :: "\n  ".toList ++
          dedentMark :: dedentMark :: indentMark :: "c".toList ++ [dedentMark] := by
  have hindent : indentMark ∉ "a\n \tb\n\t\t \n  c".toList := by decide
  have hdedent : dedentMark ∉ "a\n \tb\n\t\t \n  c".toList := by decide
  exact ⟨⟨hindent, hdedent⟩, followsBlocks_withLayout ⟨3, false⟩ hindent hdedent, by cbv⟩

-- The second tab stop is one column further than a 64-bit word can say, so it counts as zero.
example : (Source.withLayout ⟨2 ^ 63, true⟩ "\t\tb".toList).text = "\t\tb".toList := by
  cbv

end Peg.Text
